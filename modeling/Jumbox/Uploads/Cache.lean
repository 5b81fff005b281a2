import Jumbox.Store.World

/-!
# `RedisUploadSessionRepository`

A record is kept until the time to live it was saved with is over; the service
itself never looks at `expires_at` again.
-/

namespace Jumbox

namespace UploadSessionCache

/-- `max(1, int((expires_at - now).total_seconds()))`; `int` cuts towards zero. -/
def ttlSeconds (now expiresAt : ℤ) : ℤ := max 1 ((expiresAt - now).tdiv 1000000)

/-- Redis has not dropped the record yet. -/
def live (now : ℤ) (e : CacheEntry) : Bool :=
  match e.dropAt with
  | none => true
  | some t => now < t

def get (c : UploadSessionCache) (now : ℤ) (sessionId : Uuid) : Option UploadSession :=
  ((c sessionId).filter (live now)).map (·.session)

def save (c : UploadSessionCache) (now : ℤ) (session : UploadSession) : UploadSessionCache :=
  Function.update c session.id
    (some ⟨session, session.expiresAt.map fun t => now + ttlSeconds now t * 1000000⟩)

def delete (c : UploadSessionCache) (sessionId : Uuid) : UploadSessionCache :=
  Function.update c sessionId none

theorem get_eq_some {c : UploadSessionCache} {now : ℤ} {sessionId : Uuid} {s : UploadSession}
    (h : c.get now sessionId = some s) : ∃ e, c sessionId = some e ∧ e.session = s := by
  obtain ⟨e, he, rfl⟩ := Option.map_eq_some_iff.mp h
  exact ⟨e, (Option.filter_eq_some_iff.mp he).1, rfl⟩

/-- A record that has just been saved can be read for a second. -/
theorem get_save (c : UploadSessionCache) (now : ℤ) (session : UploadSession) :
    (c.save now session).get now session.id = some session := by
  have hlive : live now ⟨session,
      session.expiresAt.map fun t => now + ttlSeconds now t * 1000000⟩ = true := by
    cases session.expiresAt with
    | none => rfl
    | some t =>
        have hpos : 1 ≤ ttlSeconds now t := le_max_left _ _
        simp only [live, Option.map_some, decide_eq_true_eq]
        omega
  simp [get, save, Option.filter, hlive]

theorem save_ne {c : UploadSessionCache} {now : ℤ} {session : UploadSession} {id : Uuid}
    (h : id ≠ session.id) : c.save now session id = c id := Function.update_of_ne h _ _

end UploadSessionCache

end Jumbox
