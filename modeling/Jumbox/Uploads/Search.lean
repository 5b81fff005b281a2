import Jumbox.Library.Pattern
import Jumbox.Uploads.Run
import Mathlib.Data.Set.List

/-!
# Searching transfers

`search` puts the query between two percent signs and leaves the comparison to
`ILIKE`. A query that has no character with a meaning in patterns is looked for
as it is; a percent sign or an underscore in it matches what it does not name, and
on PostgreSQL a backslash is lost. The column `search_text`, which nothing else
reads, and the case folding of the database are parameters.
-/

namespace Jumbox

open Pattern

/-! ## `ILIKE` -/

/-- The database's `lower`, character by character: nothing is folded to a character
with a meaning in patterns, and none of these to anything else. -/
structure CaseFolding where
  fold : Char → Char
  percent : ∀ c, fold c = '%' ↔ c = '%'
  underscore : ∀ c, fold c = '_' ↔ c = '_'
  backslash : ∀ c, fold c = '\\' ↔ c = '\\'

namespace CaseFolding

variable (folding : CaseFolding)

def lower (s : Str) : Str := s.map folding.fold

/-- What a character of a pattern stands for. -/
def piece (c : Char) : Piece Char :=
  if c = '%' then .many else if c = '_' then .one else .literal c

/-- The escape of a pattern for which the statement names none. -/
def escape : Backend → Option Char
  | .sqlite => none
  | .postgresql => some '\\'

/-- `text ILIKE pattern` -/
def ilike (backend : Backend) (text pattern : Str) : Bool :=
  Matches (parse (escape backend) piece (folding.lower pattern)) (folding.lower text)

/-- The query occurs in the text, but for the case of letters. -/
def Contains (query text : Str) : Prop := folding.lower query <:+: folding.lower text

/-- `f"%{query}%"` -/
def likeQuery (query : Str) : Str := '%' :: (query ++ ['%'])

/-- No character of the query has a meaning in the patterns of the database. -/
def Plain (backend : Backend) (query : Str) : Prop :=
  '%' ∉ query ∧ '_' ∉ query ∧ ∀ c ∈ query, escape backend ≠ some c

end CaseFolding

/-! ## The search -/

namespace Db

/-- Newest first. -/
def search (db : Db) (searchText : Uuid → Str) (folding : CaseFolding) (ownerId : Uuid)
    (query : Str) (limit : ℕ) : List Transfer :=
  let likeQuery := CaseFolding.likeQuery query
  (((db.transfers.rows.filter fun m => m.ownerId = ownerId ∧
      (folding.ilike db.backend m.originalName likeQuery ∨
        folding.ilike db.backend (searchText m.id) likeQuery)).insertionSort
    fun a b => b.createdAt ≤ a.createdAt).take limit).map db.transferToDomain

end Db

namespace TransferService

/-- The limit is the default of the repository. -/
def searchTransfers (db : Db) (searchText : Uuid → Str) (folding : CaseFolding) (ownerId : Uuid)
    (query : Str) : List Transfer :=
  db.search searchText folding ownerId query 20

/-- The row is the owner's, and its name or its search text contains the query. -/
def Found (searchText : Uuid → Str) (folding : CaseFolding) (ownerId : Uuid) (query : Str)
    (m : TransferModel) : Prop :=
  m.ownerId = ownerId ∧
    (folding.Contains query m.originalName ∨ folding.Contains query (searchText m.id))

/-- The search returns the first twenty of the rows that are found, each once and the
newest first. -/
def SearchExact (db : Db) (searchText : Uuid → Str) (folding : CaseFolding) (ownerId : Uuid)
    (query : Str) : Prop :=
  ∃ found : List TransferModel, found.Nodup ∧
    (∀ m, m ∈ found ↔ m ∈ db.transfers.rows ∧ Found searchText folding ownerId query m) ∧
    found.Pairwise (fun a b => b.createdAt ≤ a.createdAt) ∧
    searchTransfers db searchText folding ownerId query =
      (found.take 20).map db.transferToDomain

end TransferService

/-! ## Patterns and substrings -/

namespace CaseFolding

variable {folding : CaseFolding} {backend : Backend} {query : Str}

theorem piece_of_ne {c : Char} (hpercent : c ≠ '%') (hunderscore : c ≠ '_') :
    piece c = .literal c := by
  rw [piece, if_neg hpercent, if_neg hunderscore]

theorem piece_eq_literal {a b : Char} (h : piece a = .literal b) : a = b := by
  unfold piece at h
  split at h
  · cases h
  · split at h
    · cases h
    · cases h
      rfl

theorem fold_percent (folding : CaseFolding) : folding.fold '%' = '%' :=
  (folding.percent '%').mpr rfl

/-- No character is folded to the escape but the escape. -/
theorem escape_eq_fold (folding : CaseFolding) {c : Char} :
    escape backend = some (folding.fold c) ↔ escape backend = some c := by
  cases backend with
  | sqlite => exact iff_of_false nofun nofun
  | postgresql =>
      show some '\\' = some (folding.fold c) ↔ some '\\' = some c
      rw [Option.some.injEq, Option.some.injEq, eq_comm, folding.backslash, eq_comm]

theorem lower_likeQuery (folding : CaseFolding) (query : Str) :
    folding.lower (likeQuery query) = '%' :: (folding.lower query ++ ['%']) := by
  simp [lower, likeQuery, folding.fold_percent]

theorem mem_lower {c : Char} (hc : c ∈ folding.lower query) : ∃ b ∈ query, folding.fold b = c :=
  List.mem_map.mp hc

/-- Nothing escapes in the pattern of a query in which nothing does. -/
theorem parse_lower_likeQuery (h : ∀ c ∈ query, escape backend ≠ some c) :
    parse (escape backend) piece (folding.lower (likeQuery query)) =
      (folding.lower (likeQuery query)).map piece := by
  have hpercent : escape backend ≠ some '%' := by cases backend <;> decide
  apply parse_eq_map
  intro c hc
  obtain ⟨b, hb, rfl⟩ := mem_lower hc
  rw [Ne, escape_eq_fold]
  rcases List.mem_cons.mp hb with rfl | hb
  · exact hpercent
  · rcases List.mem_append.mp hb with hb | hb
    · exact h b hb
    · obtain rfl := List.mem_singleton.mp hb
      exact hpercent

/-- A plain query is looked for as it is. -/
theorem ilike_likeQuery_iff (h : Plain backend query) (text : Str) :
    folding.ilike backend text (likeQuery query) = true ↔ folding.Contains query text := by
  obtain ⟨hpercent, hunderscore, hescape⟩ := h
  have hpieces : (folding.lower query).map piece = (folding.lower query).map .literal := by
    apply List.map_congr_left
    intro c hc
    obtain ⟨b, hb, rfl⟩ := mem_lower hc
    apply piece_of_ne
    · intro heq
      exact hpercent ((folding.percent b).mp heq ▸ hb)
    · intro heq
      exact hunderscore ((folding.underscore b).mp heq ▸ hb)
  have hpattern : parse (escape backend) piece (folding.lower (likeQuery query)) =
      .many :: ((folding.lower query).map .literal ++ [.many]) := by
    rw [parse_lower_likeQuery hescape, lower_likeQuery, List.map_cons, List.map_append, hpieces]
    rfl
  rw [ilike, hpattern]
  exact matches_anywhere

/-- The text a pattern spells, with an `x` for an underscore, is the folding of one. -/
theorem exists_lower_eq_spelled (folding : CaseFolding) (backend : Backend) (pattern : Str) :
    ∃ text, folding.lower text =
      spelled (folding.fold 'x') (parse (escape backend) piece (folding.lower pattern)) := by
  have hrange : spelled (folding.fold 'x') (parse (escape backend) piece (folding.lower pattern)) ∈
      Set.range (List.map folding.fold) := by
    rw [Set.range_list_map]
    intro c hc
    rcases mem_spelled hc with rfl | hliteral
    · exact ⟨'x', rfl⟩
    · have hc := mem_of_literal_mem_parse (fun _ _ => piece_eq_literal) hliteral
      obtain ⟨b, -, hb⟩ := mem_lower hc
      exact ⟨b, hb⟩
  exact hrange

/-- What a query with a wildcard spells out does not contain the wildcard. -/
theorem spelled_of_map {c : Char} {pattern : Str}
    (hc : c ∈ spelled (folding.fold 'x') (pattern.map piece)) : c ≠ '%' ∧ c ≠ '_' := by
  rcases mem_spelled hc with rfl | hliteral
  · -- the letter that is spelled for an underscore
    constructor
    · exact fun hx => absurd ((folding.percent 'x').mp hx) (by decide)
    · exact fun hx => absurd ((folding.underscore 'x').mp hx) (by decide)
  · obtain ⟨b, -, hpiece⟩ := List.mem_map.mp hliteral
    unfold piece at hpiece
    split at hpiece
    · cases hpiece
    · rename_i hpercent
      split at hpiece
      · cases hpiece
      · rename_i hunderscore
        cases hpiece
        exact ⟨hpercent, hunderscore⟩

/-- What a query with the escape spells out has fewer of it. -/
theorem not_contains_of_escape {c : Char} (hc : c ∈ query) (hescape : escape backend = some c)
    {text : Str} (htext : folding.lower text = spelled (folding.fold 'x')
      (parse (escape backend) piece (folding.lower (likeQuery query)))) :
    ¬ folding.Contains query text := by
  intro hcontains
  rw [Contains, htext] at hcontains
  have hx : folding.fold 'x' ≠ c := by
    rintro rfl
    have hletter := folding.escape_eq_fold.mp hescape
    cases backend <;> exact absurd hletter (by decide)
  have hpercent : '%' ≠ c := by
    rintro rfl
    cases backend <;> exact absurd hescape (by decide)
  have hfewer : 2 * (spelled (folding.fold 'x')
      (parse (escape backend) piece (folding.lower (likeQuery query)))).count c ≤
      (folding.lower (likeQuery query)).count c := by
    rw [hescape]
    exact two_mul_count_spelled hx (fun _ _ => piece_eq_literal) _
  have hquery : (folding.lower (likeQuery query)).count c = (folding.lower query).count c := by
    rw [lower_likeQuery, List.count_cons_of_ne hpercent, List.count_append,
      List.count_cons_of_ne hpercent]
    rfl
  have hpos : 0 < (folding.lower query).count c := by
    have hfold : folding.fold c = c :=
      (Option.some.inj (hescape.symm.trans (folding.escape_eq_fold.mpr hescape))).symm
    rw [List.count_pos_iff]
    exact hfold ▸ List.mem_map_of_mem hc
  have hmore := hcontains.sublist.count_le c
  omega

/-- A query that is not plain matches a text that does not contain it. -/
theorem exists_ilike_not_contains (folding : CaseFolding) (h : ¬ Plain backend query) :
    ∃ text, folding.ilike backend text (likeQuery query) = true ∧
      ¬ folding.Contains query text := by
  obtain ⟨text, htext⟩ := folding.exists_lower_eq_spelled backend (likeQuery query)
  refine ⟨text, ?_, ?_⟩
  · rw [ilike, htext]
    exact matches_spelled _ _
  · by_cases hescape : ∀ c ∈ query, escape backend ≠ some c
    · intro hcontains
      rw [Contains, htext, parse_lower_likeQuery hescape] at hcontains
      refine h ⟨?_, ?_, hescape⟩
      · intro hmem
        have hfold := hcontains.subset (List.mem_map_of_mem hmem)
        exact (spelled_of_map hfold).1 folding.fold_percent
      · intro hmem
        have hfold := hcontains.subset (List.mem_map_of_mem hmem)
        exact (spelled_of_map hfold).2 ((folding.underscore '_').mpr rfl)
    · push Not at hescape
      obtain ⟨c, hc, hbackend⟩ := hescape
      exact not_contains_of_escape hc hbackend htext

end CaseFolding

namespace TransferService

open CaseFolding

variable {folding : CaseFolding} {backend : Backend} {query : Str}

theorem search_exact_of_plain {db : Db} (h : Plain db.backend query) (searchText : Uuid → Str)
    (ownerId : Uuid) : SearchExact db searchText folding ownerId query := by
  refine ⟨_, ?_, ?_, ?_, rfl⟩
  · apply (List.perm_insertionSort _ _).nodup_iff.mpr
    exact (List.Nodup.of_map _ db.transfers.nodup).filter _
  · intro m
    rw [List.mem_insertionSort, List.mem_filter, decide_eq_true_eq]
    unfold Found
    rw [ilike_likeQuery_iff h, ilike_likeQuery_iff h]
  · exact List.pairwise_insertionSort _ _

/-- A row with a name, and nothing else of interest. -/
def named (ownerId : Uuid) (originalName : Str) : TransferModel where
  id := ownerId
  ownerId
  folderId := none
  originalName
  storedName := []
  storagePath := none
  sizeBytes := 0
  checksumSha256 := none
  transferCode := none
  expiresAt := none
  downloadedAt := none
  createdAt := 0

/-- The queries for which the search is right in every table of a database are those
without a wildcard and without its escape. -/
theorem search_exact_iff (folding : CaseFolding) (backend : Backend) (query : Str) :
    (∀ (db : Db) (searchText : Uuid → Str) (ownerId : Uuid), db.backend = backend →
      SearchExact db searchText folding ownerId query) ↔ Plain backend query := by
  constructor
  · intro hexact
    by_contra hwild
    obtain ⟨text, hmatches, hnot⟩ := exists_ilike_not_contains folding hwild
    -- a table of one row, whose name the pattern matches by its wildcard only
    let m := named (Uuid.ofNat 0) text
    let db : Db := ⟨backend, .empty, .empty, Table.empty.put m⟩
    have hrows : db.transfers.rows = [m] := by simp [db, Table.put, Table.empty]
    obtain ⟨found, -, hmem, -, hresult⟩ := hexact db (fun _ => text) m.ownerId rfl
    have hnone : found = [] := by
      apply List.eq_nil_iff_forall_not_mem.mpr
      intro m' hm'
      obtain ⟨hrow, -, hcontains⟩ := (hmem m').mp hm'
      rw [hrows] at hrow
      obtain rfl := List.mem_singleton.mp hrow
      exact hcontains.elim hnot hnot
    have hsearch : searchTransfers db (fun _ => text) folding m.ownerId query =
        [db.transferToDomain m] := by
      unfold searchTransfers Db.search
      dsimp only
      rw [hrows, List.filter_cons_of_pos]
      · rfl
      · exact decide_eq_true ⟨rfl, Or.inl hmatches⟩
    rw [hsearch, hnone] at hresult
    cases hresult
  · rintro hplain db searchText ownerId rfl
    exact search_exact_of_plain hplain searchText ownerId

/-! ## A percent sign -/

end TransferService

namespace CaseFolding

/-- The letters of ASCII, as SQLite folds them. -/
def ascii : CaseFolding where
  fold := Char.toLower
  percent c := Str.toLower_eq_iff (by decide)
  underscore c := Str.toLower_eq_iff (by decide)
  backslash c := Str.toLower_eq_iff (by decide)

end CaseFolding

namespace TransferService

namespace Sample

open Uploads.Sample (owner name upload run)

theorem runs_uploaded : (run [upload 11 [1]]).isSome = true := by decide +kernel

/-- A transfer of the name `a.txt`. -/
def uploaded : Db := ((run [upload 11 [1]]).get runs_uploaded).world.db

def percent : Str := ['%']

end Sample

/-- The transfer is returned for a percent sign, which its name has not. -/
theorem percent_matches_all :
    ¬ ∀ (db : Db) (searchText : Uuid → Str) (folding : CaseFolding) (ownerId : Uuid) (query : Str),
      query ≠ [] → SearchExact db searchText folding ownerId query := by
  intro h
  obtain ⟨found, -, hmem, -, hresult⟩ := h Sample.uploaded (fun _ => Uploads.Sample.name) .ascii
    Uploads.Sample.owner.userId Sample.percent (by decide)
  have hnames : Sample.uploaded.transfers.rows.map (·.originalName) = [Uploads.Sample.name] := by
    decide +kernel
  have hnone : found = [] := by
    apply List.eq_nil_iff_forall_not_mem.mpr
    intro m hm
    obtain ⟨hrow, -, hcontains⟩ := (hmem m).mp hm
    have hname : m.originalName = Uploads.Sample.name := by
      have hmapped := List.mem_map_of_mem (f := (·.originalName)) hrow
      rw [hnames] at hmapped
      exact List.mem_singleton.mp hmapped
    rw [hname] at hcontains
    have hnot : ¬ CaseFolding.ascii.Contains Sample.percent Uploads.Sample.name := by
      unfold CaseFolding.Contains
      decide
    exact hcontains.elim hnot hnot
  have hreturned : (searchTransfers Sample.uploaded (fun _ => Uploads.Sample.name) .ascii
      Uploads.Sample.owner.userId Sample.percent).length = 1 := by decide +kernel
  rw [hresult, hnone] at hreturned
  exact absurd hreturned (by decide)

end TransferService

end Jumbox
