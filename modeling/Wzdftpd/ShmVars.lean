import Wzdftpd.Runs
import Wzdftpd.Session

/- The shared variables (wzd_vars.c): a hash table of 32 buckets. The search in a bucket
does not go on to the next variable, so it ends at the first one or not at all; a function
that has not returned after some turns of the search is `none`. -/
namespace Wzdftpd

open Function List Option

/-- wzd_shm_vars_t. The data are all of the `datalength` bytes. -/
structure ShmVar where
  key : Text
  data : List UInt8
  deriving DecidableEq, Repr

/-- `_shm_vars` -/
abbrev ShmTable := Fin 32 → List ShmVar

/-- A `char` with its sign in an expression with `unsigned int`. -/
def charValue (c : Char) : BitVec 32 := (BitVec.ofNat 8 c.toNat).signExtend 32

/-- `_str_hash` -/
def strHash : Text → BitVec 32
  | [] => 0
  | c :: rest => rest.foldl (fun h c => (h <<< 5) - h + charValue c) (charValue c)

theorem shmIndex_lt (hash : BitVec 32) : ((hash >>> 7) &&& 31#32).toNat < 32 := by
  exact Nat.and_lt_two_pow _ (show (31#32).toNat < 2 ^ 5 by decide)

/-- The bucket of a variable: five bits of the hash. -/
def shmIndex (varname : Text) : Fin 32 :=
  ⟨((strHash varname >>> 7) &&& 31#32).toNat, shmIndex_lt (strHash varname)⟩

/-- `vars_shm_init` -/
def varsShmInit : ShmTable := fun _ => []

/-- The loop of `vars_shm_find`, which looks at the same variable in every turn. -/
def findLoop (varname : Text) (bucket : List ShmVar) : Nat → Option (Option ShmVar)
  | 0 => none
  | turns + 1 =>
    match bucket with
    | [] => some none
    | var :: _ => if var.key = varname then some (some var) else findLoop varname bucket turns

/-- `vars_shm_find` -/
def varsShmFind (turns : Nat) (varname : Text) (table : ShmTable) : Option (Option ShmVar) :=
  findLoop varname (table (shmIndex varname)) turns

/-- `vars_shm_get`: the code and the bytes that are copied to the caller. -/
def varsShmGet (turns : Nat) (varname : Text) (datalength : Nat) (table : ShmTable) :
    Option (Int × List UInt8) :=
  (varsShmFind turns varname table).map fun
    | some var => (0, var.data.take datalength)
    | none => (1, [])

/-- The data of a variable that is set again. Fewer bytes are copied over the first ones,
and the length is kept. -/
def overwritten (old data : List UInt8) : List UInt8 :=
  if data.length < old.length then data ++ old.drop data.length else data

/-- What `vars_shm_set` does with the variable that was found, which is the first of its
bucket. -/
def shmStore (varname : Text) (data : List UInt8) (table : ShmTable) : Option ShmVar → ShmTable
  | none => update table (shmIndex varname) (⟨varname, data⟩ :: table (shmIndex varname))
  | some var => update table (shmIndex varname)
      (⟨var.key, overwritten var.data data⟩ :: (table (shmIndex varname)).tail)

/-- `vars_shm_set` -/
def varsShmSet (turns : Nat) (varname : Text) (data : List UInt8) (table : ShmTable) :
    Option (Int × ShmTable) :=
  (varsShmFind turns varname table).map fun found => (0, shmStore varname data table found)

inductive ShmCall where
  | set (varname : Text) (data : List UInt8)
  | get (varname : Text) (datalength : Nat)
  deriving DecidableEq, Repr

namespace ShmCall

def varname : ShmCall → Text
  | set varname _ => varname
  | get varname _ => varname

def exec (turns : Nat) (table : ShmTable) : ShmCall → Option ((Int × List UInt8) × ShmTable)
  | set varname data =>
    (varsShmSet turns varname data table).map fun done => ((done.1, []), done.2)
  | get varname datalength =>
    (varsShmGet turns varname datalength table).map fun answer => (answer, table)

end ShmCall

/-- The call returns after some turns of its search. -/
def Returns (table : ShmTable) (call : ShmCall) (answer : Int × List UInt8) (after : ShmTable) :
    Prop :=
  ∃ turns, call.exec turns table = some (answer, after)

/-- The variables that have been set, the latest first: what the table stands for. -/
abbrev ShmPast := List (Text × List UInt8)

namespace ShmPast

def value (past : ShmPast) (varname : Text) : Option (List UInt8) :=
  (past.find? fun entry => entry.1 = varname).map Prod.snd

/-- What a call of a map answers. -/
def answer (past : ShmPast) : ShmCall → Int × List UInt8
  | .set _ _ => (0, [])
  | .get varname datalength =>
    match past.value varname with
    | none => (1, [])
    | some data => (0, data.take datalength)

def after (past : ShmPast) : ShmCall → ShmPast
  | .set varname data => (varname, data) :: past
  | .get _ _ => past

/-- What the table has for a variable: every new value lies over the old one. -/
def stored (varname : Text) : ShmPast → List UInt8
  | [] => []
  | (name, data) :: past =>
    if name = varname then overwritten (stored varname past) data else stored varname past

end ShmPast

/-- Every call of a sequence returns, and answers like a map. -/
def BehavesAsMap : ShmPast → ShmTable → List ShmCall → Prop
  | _, _, [] => True
  | past, table, call :: calls =>
    ∃ after, Returns table call (past.answer call) after ∧
      BehavesAsMap (past.after call) after calls

/-- A call that the table gets right: no other variable of its bucket has been set, and
what is read was never longer, or is not asked for any further. -/
structure ShmSafe (past : ShmPast) (call : ShmCall) : Prop where
  alone : ∀ entry ∈ past, shmIndex entry.1 = shmIndex call.varname → entry.1 = call.varname
  shown : ∀ varname datalength data, call = .get varname datalength →
    past.value varname = some data →
      datalength ≤ data.length ∨ ∀ entry ∈ past, entry.1 = varname → entry.2.length ≤ data.length

/-- The table of a run in which every bucket has held one variable only. -/
structure Holds (past : ShmPast) (table : ShmTable) : Prop where
  apart : ∀ entry ∈ past, ∀ other ∈ past, shmIndex entry.1 = shmIndex other.1 → entry.1 = other.1
  bucket : ∀ varname,
    (∀ entry ∈ past, shmIndex entry.1 = shmIndex varname → entry.1 = varname) →
      table (shmIndex varname) =
        if (past.value varname).isSome then [⟨varname, past.stored varname⟩] else []

theorem holds_init : Holds [] varsShmInit :=
  ⟨fun _ none => absurd none not_mem_nil, fun _ _ => rfl⟩

section

variable {varname : Text} {bucket : List ShmVar} {past : ShmPast} {table : ShmTable}
  {call : ShmCall}

theorem findLoop_one {turns : Nat} {found : Option ShmVar}
    (ended : findLoop varname bucket turns = some found) :
    findLoop varname bucket 1 = some found := by
  induction turns with
  | zero => cases ended
  | succ turns ih =>
    cases bucket with
    | nil => exact ended
    | cons var rest =>
      by_cases own : var.key = varname
      · rw [findLoop, if_pos own] at ended ⊢
        exact ended
      · rw [findLoop, if_neg own] at ended
        exact ih ended

theorem findLoop_other {var : ShmVar} {rest : List ShmVar} (other : var.key ≠ varname)
    (turns : Nat) : findLoop varname (var :: rest) turns = none := by
  induction turns with
  | zero => rfl
  | succ turns ih => rw [findLoop, if_neg other, ih]

theorem exec_one {turns : Nat} {out : (Int × List UInt8) × ShmTable}
    (ended : call.exec turns table = some out) : call.exec 1 table = some out := by
  cases call with
  | set varname data =>
    obtain ⟨done, ran, same⟩ := map_eq_some_iff.mp ended
    obtain ⟨found, search, stored⟩ := map_eq_some_iff.mp ran
    simp [ShmCall.exec, varsShmSet, varsShmFind, findLoop_one search, stored, same]
  | get varname datalength =>
    obtain ⟨done, ran, same⟩ := map_eq_some_iff.mp ended
    obtain ⟨found, search, read⟩ := map_eq_some_iff.mp ran
    simp [ShmCall.exec, varsShmGet, varsShmFind, findLoop_one search, read, same]

theorem returns_iff {answer : Int × List UInt8} {after : ShmTable} :
    Returns table call answer after ↔ call.exec 1 table = some (answer, after) :=
  ⟨fun ⟨_, ended⟩ => exec_one ended, fun ended => ⟨1, ended⟩⟩

theorem exec_other {var : ShmVar} {rest : List ShmVar}
    (first : table (shmIndex call.varname) = var :: rest) (other : var.key ≠ call.varname)
    (turns : Nat) : call.exec turns table = none := by
  have search : varsShmFind turns call.varname table = none := by
    rw [varsShmFind, first]
    exact findLoop_other other turns
  cases call with
  | set varname data =>
    change varsShmFind turns varname table = none at search
    simp [ShmCall.exec, varsShmSet, search]
  | get varname datalength =>
    change varsShmFind turns varname table = none at search
    simp [ShmCall.exec, varsShmGet, search]

theorem overwritten_length (old data : List UInt8) :
    (overwritten old data).length = max old.length data.length := by
  unfold overwritten
  split
  · rw [length_append, length_drop]
    omega
  · omega

theorem prefix_overwritten (old data : List UInt8) : data <+: overwritten old data := by
  unfold overwritten
  split
  · exact prefix_append data _
  · exact prefix_rfl

namespace ShmPast

theorem value_cons (name : Text) (data : List UInt8) (past : ShmPast) (varname : Text) :
    value ((name, data) :: past) varname =
      if name = varname then some data else past.value varname := by
  unfold value
  by_cases same : name = varname
  · simp [same]
  · simp [same]

theorem value_isSome : (past.value varname).isSome ↔ ∃ entry ∈ past, entry.1 = varname := by
  rw [value]
  simp

theorem prefix_stored {data : List UInt8} (last : past.value varname = some data) :
    data <+: past.stored varname := by
  induction past with
  | nil => cases last
  | cons entry past ih =>
    obtain ⟨name, bytes⟩ := entry
    rw [value_cons] at last
    rw [stored]
    by_cases same : name = varname
    · rw [if_pos same] at last ⊢
      rw [← some.inj last]
      exact prefix_overwritten _ bytes
    · rw [if_neg same] at last ⊢
      exact ih last

theorem stored_length_le (size : Nat) :
    (past.stored varname).length ≤ size ↔
      ∀ entry ∈ past, entry.1 = varname → entry.2.length ≤ size := by
  induction past with
  | nil => exact iff_of_true (Nat.zero_le size) fun _ none => absurd none not_mem_nil
  | cons entry past ih =>
    obtain ⟨name, _⟩ := entry
    rw [stored, forall_mem_cons]
    by_cases same : name = varname
    · rw [if_pos same, overwritten_length, Nat.max_le, ih]
      exact ⟨fun both => ⟨fun _ => both.2, both.1⟩, fun both => ⟨both.2, both.1 same⟩⟩
    · rw [if_neg same, ih]
      exact ⟨fun all => ⟨fun own => absurd own same, all⟩, fun both => both.2⟩

end ShmPast

theorem take_stored_iff {data kept : List UInt8} (last : data <+: kept) (size : Nat) :
    kept.take size = data.take size ↔ size ≤ data.length ∨ kept.length ≤ data.length := by
  obtain ⟨rest, rfl⟩ := last
  constructor
  · intro same
    have lengths := congrArg length same
    rw [length_take, length_take, length_append] at lengths
    rw [length_append]
    omega
  · rintro (short | whole)
    · exact take_append_of_le_length short
    · have none : rest = [] := by
        rw [length_append] at whole
        exact length_eq_zero_iff.mp (by omega)
      simp [none]

theorem ShmPast.stored_of_unset (unset : past.value varname = none) : past.stored varname = [] := by
  have never : ∀ entry ∈ past, entry.1 = varname → entry.2.length ≤ 0 := by
    intro entry member own
    have set := ShmPast.value_isSome.mpr ⟨entry, member, own⟩
    rw [unset] at set
    cases set
  exact length_eq_zero_iff.mp (Nat.le_zero.mp ((ShmPast.stored_length_le 0).mpr never))

theorem exec_set {data : List UInt8} (holds : Holds past table)
    (alone : ∀ entry ∈ past, shmIndex entry.1 = shmIndex varname → entry.1 = varname) :
    (ShmCall.set varname data).exec 1 table = some ((0, []), update table
      (shmIndex varname) [⟨varname, ShmPast.stored varname ((varname, data) :: past)⟩]) := by
  have bucket := holds.bucket varname alone
  rw [ShmPast.stored, if_pos rfl]
  cases known : past.value varname with
  | none =>
    rw [known] at bucket
    have search : varsShmFind 1 varname table = some none := by
      rw [varsShmFind, bucket]
      rfl
    rw [ShmPast.stored_of_unset known, ShmCall.exec, varsShmSet, search, map_some, shmStore, bucket]
    rfl
  | some last =>
    rw [known] at bucket
    have search : varsShmFind 1 varname table = some (some ⟨varname, past.stored varname⟩) := by
      rw [varsShmFind, bucket]
      exact if_pos rfl
    simp [ShmCall.exec, varsShmSet, search, shmStore, bucket]

theorem holds_set {data : List UInt8} (holds : Holds past table)
    (alone : ∀ entry ∈ past, shmIndex entry.1 = shmIndex varname → entry.1 = varname) :
    Holds ((varname, data) :: past) (update table (shmIndex varname)
      [⟨varname, ShmPast.stored varname ((varname, data) :: past)⟩]) := by
  refine ⟨?_, fun name single => ?_⟩
  · rw [forall_mem_cons]
    refine ⟨?_, fun entry member => ?_⟩
    · rw [forall_mem_cons]
      exact ⟨fun _ => rfl, fun other member same => (alone other member same.symm).symm⟩
    · rw [forall_mem_cons]
      exact ⟨alone entry member, holds.apart entry member⟩
  · rw [forall_mem_cons] at single
    by_cases same : shmIndex varname = shmIndex name
    · have own := single.1 same
      subst own
      simp [ShmPast.value_cons]
    · have other : varname ≠ name := fun equal => same (congrArg shmIndex equal)
      rw [update_of_ne (Ne.symm same), ShmPast.value_cons, if_neg other, ShmPast.stored,
        if_neg other]
      exact holds.bucket name single.2

theorem exec_get {datalength : Nat} (holds : Holds past table)
    (alone : ∀ entry ∈ past, shmIndex entry.1 = shmIndex varname → entry.1 = varname) :
    (ShmCall.get varname datalength).exec 1 table =
      some (if (past.value varname).isSome then (0, (past.stored varname).take datalength)
        else (1, []), table) := by
  have bucket := holds.bucket varname alone
  rw [ShmCall.exec, varsShmGet, varsShmFind, bucket]
  cases past.value varname with
  | none => rfl
  | some last =>
    change ((if varname = varname then _ else _ : Option (Option ShmVar)).map _).map _ = _
    rw [if_pos rfl]
    rfl

theorem answer_get_iff {datalength : Nat} :
    (if (past.value varname).isSome then (0, (past.stored varname).take datalength)
        else (1, [])) = past.answer (.get varname datalength) ↔
      ∀ data, past.value varname = some data → datalength ≤ data.length ∨
        ∀ entry ∈ past, entry.1 = varname → entry.2.length ≤ data.length := by
  rw [ShmPast.answer]
  cases known : past.value varname with
  | none => exact iff_of_true rfl fun data impossible => by cases impossible
  | some last =>
    have bytes := take_stored_iff (ShmPast.prefix_stored known) datalength
    rw [ShmPast.stored_length_le] at bytes
    constructor
    · intro same data found
      cases found
      exact bytes.mp (Prod.mk.inj same).2
    · intro safe
      exact congrArg (Prod.mk 0) (bytes.mpr (safe last rfl))

theorem not_returns_of_shared (holds : Holds past table)
    (shared : ¬∀ entry ∈ past, shmIndex entry.1 = shmIndex call.varname → entry.1 = call.varname)
    (answer : Int × List UInt8) (after : ShmTable) : ¬Returns table call answer after := by
  rintro ⟨turns, ended⟩
  simp only [not_forall] at shared
  obtain ⟨entry, member, same, other⟩ := shared
  have bucket := holds.bucket entry.1 fun another there alike =>
    holds.apart another there entry member alike
  rw [if_pos (ShmPast.value_isSome.mpr ⟨entry, member, rfl⟩), same] at bucket
  rw [exec_other bucket other turns] at ended
  cases ended

/-- A call that is alone in its bucket returns, and leaves the table of the map after it. -/
theorem returns_of_alone (holds : Holds past table)
    (alone : ∀ entry ∈ past, shmIndex entry.1 = shmIndex call.varname → entry.1 = call.varname) :
    ∃ answer after, call.exec 1 table = some (answer, after) ∧ Holds (past.after call) after ∧
      (answer = past.answer call ↔ ShmSafe past call) := by
  cases call with
  | set varname data =>
    refine ⟨_, _, exec_set holds alone, holds_set holds alone, iff_of_true rfl ⟨alone, ?_⟩⟩
    intro _ _ _ impossible
    cases impossible
  | get varname datalength =>
    refine ⟨_, _, exec_get holds alone, holds, answer_get_iff.trans ?_⟩
    constructor
    · intro shown
      refine ⟨alone, fun name size data same => ?_⟩
      cases same
      exact shown data
    · exact fun safe data => safe.shown varname datalength data rfl

theorem behavesAsMap_iff (calls : List ShmCall) : ∀ {past : ShmPast} {table : ShmTable},
    Holds past table →
      (BehavesAsMap past table calls ↔ Runs.Always ShmPast.after ShmSafe past calls) := by
  induction calls with
  | nil => exact fun _ => Iff.rfl
  | cons call calls ih =>
    intro past table holds
    by_cases alone : ∀ entry ∈ past, shmIndex entry.1 = shmIndex call.varname →
        entry.1 = call.varname
    · obtain ⟨_, after, ran, next, right⟩ := returns_of_alone holds alone
      constructor
      · rintro ⟨_, returned, later⟩
        obtain ⟨same, rfl⟩ :=
          Prod.mk.inj (some.inj (ran.symm.trans (returns_iff.mp returned)))
        exact ⟨right.mp same, (ih next).mp later⟩
      · rintro ⟨safe, later⟩
        refine ⟨after, returns_iff.mpr ?_, (ih next).mpr later⟩
        rw [ran, right.mpr safe]
    · constructor
      · rintro ⟨after, returned, _⟩
        exact absurd returned (not_returns_of_shared holds alone _ after)
      · exact fun both => absurd both.1.alone alone

end

/-- The shared variables are a map over a sequence of calls exactly when no call meets
another variable in its bucket, and none reads beyond the last value of a variable that
was longer before. -/
theorem shm_is_map_iff (calls : List ShmCall) :
    BehavesAsMap [] varsShmInit calls ↔ Runs.Always ShmPast.after ShmSafe [] calls :=
  behavesAsMap_iff calls holds_init

/-- The names `a` and `b` share a bucket, so that a search for the second one does not end
after the first one has been set; and the tail of a longer value comes back. -/
theorem shm_not_map :
    (∀ turns, ((ShmCall.set ['a'] [1]).exec 1 varsShmInit).bind
      (fun done => (ShmCall.get ['b'] 4).exec turns done.2) = none) ∧
    ((((ShmCall.set ['a'] [1, 2, 3]).exec 1 varsShmInit).bind
      fun done => (ShmCall.set ['a'] [7]).exec 1 done.2).bind
        fun done => (ShmCall.get ['a'] 4).exec 1 done.2).map (·.1) = some (0, [7, 2, 3]) := by
  constructor
  · intro turns
    have first : update varsShmInit (shmIndex ['a']) [⟨['a'], [1]⟩]
        (shmIndex (ShmCall.get ['b'] 4).varname) = [⟨['a'], [1]⟩] := by decide
    exact @exec_other _ (.get ['b'] 4) _ _ first (by decide) turns
  · decide

end Wzdftpd
