import Wzdftpd.SiteUser

/- `libsqlite_update_ip` of libsqlite_main.c: which addresses of a user are deleted from the
database, and which are added. -/
namespace Wzdftpd

open List

/-- The inner loop, which does not stop at the address that it finds. -/
def foundAmong (regexp : Text) (list : List IpEntry) : Bool :=
  list.foldl (fun found ip => if ip.regexp = regexp then true else found) false

/-- One of the two searches: what `list` has and `other` has not is appended to `out`. -/
def addMissing (list other out : List IpEntry) : List IpEntry :=
  list.foldl (fun out ip => if foundAmong ip.regexp other then out else ipAddCheck out ip.regexp)
    out

/-- The four lists after the call. -/
structure IpUpdate where
  db : List IpEntry
  update : List IpEntry
  delete : List IpEntry
  add : List IpEntry

/-- `libsqlite_update_ip` -/
def libsqliteUpdateIp (lists : IpUpdate) : IpUpdate :=
  { lists with
    delete := addMissing lists.db lists.update lists.delete
    add := addMissing lists.update lists.db lists.add }

def patterns (list : List IpEntry) : List Text := list.map IpEntry.regexp

theorem foundAmong_iff (regexp : Text) (list : List IpEntry) :
    foundAmong regexp list = true ↔ regexp ∈ patterns list := by
  have kept : ∀ found, list.foldl (fun found ip => if ip.regexp = regexp then true else found)
      found = true ↔ found = true ∨ regexp ∈ patterns list := by
    induction list with
    | nil => simp [patterns]
    | cons ip list ih =>
      intro found
      rw [foldl_cons, ih]
      by_cases same : ip.regexp = regexp
      · simp [same, patterns]
      · simp [same, patterns, Ne.symm same]
  rw [foundAmong, kept]
  simp

theorem mem_addMissing {list : List IpEntry}
    (sized : ∀ ip ∈ list, 1 ≤ ip.regexp.length ∧ ip.regexp.length < maxIpLength)
    (other : List IpEntry) (regexp : Text) : ∀ out : List IpEntry,
    regexp ∈ patterns (addMissing list other out) ↔
      regexp ∈ patterns out ∨ regexp ∈ patterns list ∧ regexp ∉ patterns other := by
  induction list with
  | nil => simp [addMissing, patterns]
  | cons ip list ih =>
    obtain ⟨_, others⟩ := forall_mem_cons.mp sized
    intro out
    have kept : ipAddCheck out ip.regexp = out ++ [⟨ip.regexp, true⟩] := if_neg (by omega)
    have all : patterns (ip :: list) = ip.regexp :: patterns list := rfl
    have more : patterns (out ++ [⟨ip.regexp, true⟩]) = patterns out ++ [ip.regexp] := by
      simp [patterns]
    rw [addMissing, foldl_cons, ← addMissing, ih others, kept, all]
    simp only [foundAmong_iff]
    by_cases there : ip.regexp ∈ patterns other <;> by_cases same : regexp = ip.regexp <;>
      simp [there, same, more]

/-- What is deleted and added makes the addresses of the database those of the user. -/
theorem libsqliteUpdateIp_synchronises (db update : List IpEntry)
    (sized : ∀ ip ∈ db ++ update, 1 ≤ ip.regexp.length ∧ ip.regexp.length < maxIpLength) :
    let lists := libsqliteUpdateIp ⟨db, update, [], []⟩
    lists.db = db ∧ lists.update = update ∧
      (∀ regexp, regexp ∈ patterns update ↔
        regexp ∈ patterns db ∧ regexp ∉ patterns lists.delete ∨ regexp ∈ patterns lists.add) ∧
      (∀ regexp ∈ patterns lists.delete, regexp ∉ patterns update) ∧
      ∀ regexp ∈ patterns lists.add, regexp ∉ patterns db := by
  obtain ⟨inDb, inUpdate⟩ := forall_mem_append.mp sized
  have deleted := fun regexp => mem_addMissing inDb update regexp []
  have added := fun regexp => mem_addMissing inUpdate db regexp []
  have nothing : patterns [] = [] := rfl
  simp only [libsqliteUpdateIp, deleted, added, nothing, not_mem_nil, false_or]
  refine ⟨trivial, trivial, fun regexp => ?_, fun _ both => both.2, fun _ both => both.2⟩
  by_cases old : regexp ∈ patterns db <;> simp [old]

theorem libsqliteUpdateIp_synchronises_two :
    "b".toList ∈ patterns
      (libsqliteUpdateIp ⟨[⟨"a".toList, true⟩], [⟨"b".toList, true⟩], [], []⟩).add := by
  have new := (libsqliteUpdateIp_synchronises [⟨"a".toList, true⟩] [⟨"b".toList, true⟩]
    (by simp [maxIpLength])).2.2.1 "b".toList
  exact (new.mp (by simp [patterns])).resolve_left (by simp [patterns])

end Wzdftpd
