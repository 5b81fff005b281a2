import Jumbox.Store.Database
import Jumbox.Storage.Local
import Jumbox.Storage.Chunks

/-!
# The world the services act on

The committed database, the Redis cache of upload sessions and the files. A
service call returns its result or the error it raised, and the world it leaves:
what was committed or written before an error stays.
-/

namespace Jumbox

/-- A cached record and the instant Redis drops it at, if it was given one. -/
structure CacheEntry where
  session : UploadSession
  dropAt : Option ℤ

abbrev UploadSessionCache := Uuid → Option CacheEntry

structure World where
  db : Db
  cache : UploadSessionCache
  files : Files

abbrev Outcome (α : Type) := Except Error α × World

namespace World

/-- A new installation. -/
def initial (backend : Backend) : World := ⟨Db.empty backend, fun _ => none, fun _ => none⟩

def withDb (w : World) (db : Db) : World := { w with db := db }

def withFiles (w : World) (fs : Files) : World := { w with files := fs }

def withCache (w : World) (cache : UploadSessionCache) : World := { w with cache := cache }

@[simp] theorem withDb_db (w : World) (db : Db) : (w.withDb db).db = db := rfl

@[simp] theorem withDb_files (w : World) (db : Db) : (w.withDb db).files = w.files := rfl

@[simp] theorem withDb_cache (w : World) (db : Db) : (w.withDb db).cache = w.cache := rfl

@[simp] theorem withFiles_db (w : World) (fs : Files) : (w.withFiles fs).db = w.db := rfl

@[simp] theorem withFiles_files (w : World) (fs : Files) : (w.withFiles fs).files = fs := rfl

@[simp] theorem withFiles_cache (w : World) (fs : Files) :
    (w.withFiles fs).cache = w.cache := rfl

@[simp] theorem withCache_db (w : World) (c : UploadSessionCache) : (w.withCache c).db = w.db := rfl

@[simp] theorem withCache_files (w : World) (c : UploadSessionCache) :
    (w.withCache c).files = w.files := rfl

@[simp] theorem withCache_cache (w : World) (c : UploadSessionCache) :
    (w.withCache c).cache = c := rfl

end World

end Jumbox
