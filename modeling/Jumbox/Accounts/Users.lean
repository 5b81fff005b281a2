import Jumbox.Domain.Basic
import Jumbox.Library.Table

/-!
# Users

The aggregate of `domain/users.py`, its table and its repository. The table keeps
both of its unique columns unique, so what an insert can violate is part of the
type. The two timestamps are written and never read, so they are left out.
-/

namespace Jumbox

structure User where
  email : Str
  passwordHash : Str
  displayName : Option Str := none
  id : Uuid
  /-- Nothing reads it: a user that is not active logs in like any other. -/
  isActive : Bool := true
  isAdmin : Bool := false
deriving DecidableEq

/-- A row of `users`. -/
structure UserModel where
  id : Uuid
  email : Str
  passwordHash : Str
  displayName : Option Str
  isActive : Bool := true
  isAdmin : Bool := false
deriving DecidableEq

/-- `_user_to_domain` -/
def userToDomain (model : UserModel) : User where
  id := model.id
  email := model.email
  passwordHash := model.passwordHash
  displayName := model.displayName
  isActive := model.isActive
  isAdmin := model.isAdmin

/-- `_user_to_model` -/
def userToModel (domain : User) : UserModel where
  id := domain.id
  email := domain.email
  passwordHash := domain.passwordHash
  displayName := domain.displayName
  isActive := domain.isActive
  isAdmin := domain.isAdmin

@[simp] theorem userToDomain_userToModel (user : User) : userToDomain (userToModel user) = user :=
  rfl

structure UserTable where
  table : Table UserModel.id
  emails : (table.rows.map UserModel.email).Nodup

namespace UserTable

def empty : UserTable := ⟨.empty, List.nodup_nil⟩

variable (users : UserTable)

/-! ## `SQLAlchemyUserRepository` -/

def getById (userId : Uuid) : Option User := (users.table.get? userId).map userToDomain

def getByEmail (email : Str) : Option User :=
  (users.table.rows.find? (·.email = email)).map userToDomain

/-- Neither of the unique columns has the value yet. -/
def Admits (user : User) : Prop :=
  ∀ m ∈ users.table.rows, m.id ≠ user.id ∧ m.email ≠ user.email

instance (user : User) : Decidable (users.Admits user) :=
  inferInstanceAs (Decidable (∀ m ∈ users.table.rows, _))

theorem rows_put {user : User} (h : users.Admits user) :
    (users.table.put (userToModel user)).rows = users.table.rows ++ [userToModel user] := by
  apply if_neg
  intro hmem
  obtain ⟨m, hm, hid⟩ := List.mem_map.mp hmem
  exact (h m hm).1 hid

/-- Insert; a unique constraint may reject it. -/
def add (user : User) : Except Error UserTable :=
  if h : users.Admits user then
    .ok
      { table := users.table.put (userToModel user)
        emails := by
          rw [rows_put users h, List.map_append, List.map_singleton]
          refine List.nodup_append.mpr ⟨users.emails, List.nodup_singleton _, ?_⟩
          intro email hemail email' hemail'
          obtain ⟨m, hm, rfl⟩ := List.mem_map.mp hemail
          rw [List.mem_singleton.mp hemail']
          exact (h m hm).2 }
  else if users.table.rows.any (·.email = user.email) then
    .error ⟨.integrityError, "UNIQUE constraint failed: users.email".toList⟩
  else .error ⟨.integrityError, "UNIQUE constraint failed: users.id".toList⟩

/-! ## What the queries return -/

variable {users}

theorem eq_of_email {m m' : UserModel} (hm : m ∈ users.table.rows) (hm' : m' ∈ users.table.rows)
    (h : m.email = m'.email) : m = m' :=
  List.inj_on_of_nodup_map users.emails hm hm' h

theorem getByEmail_eq_some {email : Str} {user : User} :
    users.getByEmail email = some user ↔
      userToModel user ∈ users.table.rows ∧ user.email = email := by
  constructor
  · intro h
    obtain ⟨m, hm, rfl⟩ := Option.map_eq_some_iff.mp h
    have hemail : m.email = email := by simpa using List.find?_some hm
    exact ⟨List.mem_of_find?_eq_some hm, hemail⟩
  · rintro ⟨hmem, rfl⟩
    have hsome : (users.table.rows.find? (·.email = user.email)).isSome = true := by
      rw [List.find?_isSome]
      exact ⟨_, hmem, by simp [userToModel]⟩
    obtain ⟨m, hm⟩ := Option.isSome_iff_exists.mp hsome
    have hemail : m.email = user.email := by simpa using List.find?_some hm
    rw [getByEmail, hm, eq_of_email (List.mem_of_find?_eq_some hm) hmem hemail]
    rfl

theorem getByEmail_eq_none {email : Str} :
    users.getByEmail email = none ↔ ∀ m ∈ users.table.rows, m.email ≠ email := by
  simp [getByEmail]

theorem getById_eq_some {userId : Uuid} {user : User} :
    users.getById userId = some user ↔
      userToModel user ∈ users.table.rows ∧ user.id = userId := by
  rw [getById, Option.map_eq_some_iff]
  constructor
  · rintro ⟨m, hm, rfl⟩
    exact Table.get?_eq_some.mp hm
  · rintro ⟨hmem, rfl⟩
    exact ⟨userToModel user, Table.get?_of_mem hmem, rfl⟩

theorem add_of_admits {user : User} (h : users.Admits user) :
    ∃ users', users.add user = .ok users' ∧
      users'.table.rows = users.table.rows ++ [userToModel user] :=
  ⟨_, dif_pos h, rows_put users h⟩

theorem add_eq_ok {users' : UserTable} {user : User} (h : users.add user = .ok users') :
    users.Admits user ∧ users'.table.rows = users.table.rows ++ [userToModel user] := by
  by_cases hadmits : users.Admits user
  · obtain ⟨users'', hadd, hrows⟩ := add_of_admits hadmits
    cases hadd.symm.trans h
    exact ⟨hadmits, hrows⟩
  · rw [add, dif_neg hadmits] at h
    split at h
    · cases h
    · cases h

/-- An insert is seen under the user's own address only. -/
theorem getByEmail_add {users' : UserTable} {user : User} (h : users.add user = .ok users')
    (email : Str) :
    users'.getByEmail email = if user.email = email then some user else users.getByEmail email := by
  obtain ⟨hadmits, hrows⟩ := add_eq_ok h
  split
  · rename_i hemail
    apply getByEmail_eq_some.mpr
    rw [hrows]
    exact ⟨List.mem_append_right _ (List.mem_singleton_self _), hemail⟩
  · rename_i hemail
    rw [getByEmail, hrows, List.find?_append]
    have hnew : [userToModel user].find? (·.email = email) = none := by
      simpa [userToModel] using hemail
    rw [hnew, Option.or_none]
    rfl

end UserTable

end Jumbox
