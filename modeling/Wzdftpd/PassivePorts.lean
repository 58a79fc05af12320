import Mathlib.Data.List.Nodup

/- The search for a port in `do_pasv` and `do_epsv` (wzd_ClientThread.c). Sockets are
created and listen; `bind` fails on some ports. -/
namespace Wzdftpd

open List

/-- The ports that `bind` was called with, the port the socket is bound to, and the
numbers in the answer to the client. -/
structure PassiveSearch (α : Type) where
  tried : List Nat
  bound : Option Nat
  announced : Option α

/-- `while (count-- > 0)` of `do_pasv`: the ports tried, and the one that was bound. -/
def pasvLoop (bind : Nat → Bool) (low high : Nat) : Nat → Nat → List Nat × Option Nat
  | 0, _ => ([], none)
  | count + 1, port =>
    if bind (port % 65536) then ([port % 65536], some port)
    else
      let rest := pasvLoop bind low high count (if port + 1 > high then low else port + 1)
      (port % 65536 :: rest.1, rest.2)

/-- `do_pasv`: the answer has the two bytes of the port. -/
def doPasvSearch (bind : Nat → Bool) (low high random : Nat) : PassiveSearch (Nat × Nat) :=
  let count := high - low + 1
  let found := pasvLoop bind low high count (low + random % count)
  match found.2 with
  | none => ⟨found.1, none, none⟩
  | some port =>
    if port < low ∨ port > high ∨ port ≥ 65536 then ⟨found.1, none, none⟩
    else ⟨found.1, some (port % 65536), some (port >>> 8 &&& 0xff, port &&& 0xff)⟩

/-- `while (port <= pasv_high_range)` of `do_epsv`: the ports tried, and the port behind
the loop. -/
def epsvLoop (bind : Nat → Bool) (high : Nat) : Nat → Nat → List Nat × Nat
  | 0, port => ([], port)
  | turns + 1, port =>
    if port ≤ high then
      if bind (port % 65536) then ([port % 65536], port)
      else
        let rest := epsvLoop bind high turns (port + 1)
        (port % 65536 :: rest.1, rest.2)
    else ([], port)

/-- `do_epsv`: the answer has the port. -/
def doEpsvSearch (bind : Nat → Bool) (low high : Nat) : PassiveSearch Nat :=
  let found := epsvLoop bind high (high + 1) low
  if found.2 > high ∨ found.2 ≥ 65536 then ⟨found.1, none, none⟩
  else ⟨found.1, some (found.2 % 65536), some found.2⟩

/-- The ports of a list up to the first one that can be bound. -/
def tryPorts (bind : Nat → Bool) : List Nat → List Nat
  | [] => []
  | port :: ports => if bind port then [port] else port :: tryPorts bind ports

/-- The ports that `do_pasv` comes to, from one port of the range on. -/
def pasvOrder (low high : Nat) : Nat → Nat → List Nat
  | 0, _ => []
  | count + 1, port => port :: pasvOrder low high count (if port + 1 > high then low else port + 1)

theorem tryPorts_start (bind : Nat → Bool) (ports : List Nat) : tryPorts bind ports <+: ports := by
  induction ports with
  | nil => exact prefix_rfl
  | cons port ports ih =>
    rw [tryPorts]
    split
    · exact ⟨ports, rfl⟩
    · exact (prefix_cons_inj port).mpr ih

section

variable {bind : Nat → Bool} {low high : Nat}

theorem pasvLoop_eq (ordered : low ≤ high) (small : high ≤ 65535) (count : Nat) :
    ∀ {port : Nat}, port ≤ high → pasvLoop bind low high count port =
      (tryPorts bind (pasvOrder low high count port),
        (pasvOrder low high count port).find? bind) := by
  induction count with
  | zero => exact fun _ => rfl
  | succ count ih =>
    intro port inside
    have same : port % 65536 = port := Nat.mod_eq_of_lt (by omega)
    have next : (if port + 1 > high then low else port + 1) ≤ high := by
      split <;> omega
    rw [pasvLoop, pasvOrder, tryPorts, find?_cons, same, ih next]
    cases bind port <;> rfl

theorem epsvLoop_eq (small : high ≤ 65535) (turns : Nat) : ∀ {port : Nat}, port ≤ high + 1 →
    high + 1 - port ≤ turns → epsvLoop bind high turns port =
      (tryPorts bind (range' port (high + 1 - port)),
        ((range' port (high + 1 - port)).find? bind).getD (high + 1)) := by
  induction turns with
  | zero =>
    intro port inside enough
    have last : port = high + 1 := by omega
    simp [epsvLoop, last, tryPorts]
  | succ turns ih =>
    intro port inside enough
    rw [epsvLoop]
    split
    · have same : port % 65536 = port := Nat.mod_eq_of_lt (by omega)
      rw [show high + 1 - port = high + 1 - (port + 1) + 1 by omega, range'_succ, tryPorts,
        find?_cons, same, ih (by omega) (by omega)]
      cases bind port <;> rfl
    · have last : port = high + 1 := by omega
      simp [last, tryPorts]

theorem pasvOrder_within (count : Nat) : ∀ {port : Nat}, port + count ≤ high + 1 →
    pasvOrder low high count port = range' port count := by
  induction count with
  | zero => exact fun _ => rfl
  | succ count ih =>
    intro port inside
    rw [pasvOrder, range'_succ]
    cases count with
    | zero => rfl
    | succ count => rw [if_neg (by omega), ih (by omega)]

/-- Up to the top of the range, and then from its bottom on. -/
theorem pasvOrder_wraps (count more : Nat) : ∀ {port : Nat}, port + count = high →
    pasvOrder low high (count + 1 + more) port =
      range' port (count + 1) ++ pasvOrder low high more low := by
  induction count with
  | zero =>
    intro port last
    rw [Nat.add_comm, pasvOrder, if_pos (by omega)]
    rfl
  | succ count ih =>
    intro port inside
    rw [Nat.add_right_comm, pasvOrder, if_neg (by omega), ih (by omega)]
    rfl

theorem pasvOrder_all (ordered : low ≤ high) {start : Nat} (least : low ≤ start)
    (most : start ≤ high) :
    (pasvOrder low high (high - low + 1) start).Nodup ∧
      ∀ port, port ∈ pasvOrder low high (high - low + 1) start ↔ low ≤ port ∧ port ≤ high := by
  have order : pasvOrder low high (high - low + 1) start =
      range' start (high - start + 1) ++ range' low (start - low) := by
    rw [show high - low + 1 = high - start + 1 + (start - low) by omega,
      pasvOrder_wraps _ _ (by omega), pasvOrder_within _ (by omega)]
  rw [order]
  constructor
  · refine (nodup_range').append nodup_range' fun port above below => ?_
    rw [mem_range'_1] at above below
    omega
  · intro port
    rw [mem_append, mem_range'_1, mem_range'_1]
    omega

theorem bytes_of_port {port : Nat} (small : port ≤ 65535) :
    256 * (port >>> 8 &&& 0xff) + (port &&& 0xff) = port := by
  have mask : ∀ n, n &&& 0xff = n % 256 := fun n => Nat.and_two_pow_sub_one_eq_mod n 8
  rw [mask, mask]
  omega

end

/-- A search that announces a port exactly if one of the range can be bound, namely the one
it has bound, and that tries none twice. -/
structure PassiveSearch.Complete {α : Type} (search : PassiveSearch α) (port : α → Nat)
    (bind : Nat → Bool) (low high : Nat) : Prop where
  found : search.announced ≠ none ↔ ∃ port, low ≤ port ∧ port ≤ high ∧ bind port = true
  named : search.announced.map port = search.bound
  inside : ∀ port, search.bound = some port → low ≤ port ∧ port ≤ high ∧ bind port = true
  once : search.tried.Nodup

theorem complete_of_find {α : Type} {bind : Nat → Bool} {low high : Nat} {ports : List Nat}
    (once : ports.Nodup) (all : ∀ port, port ∈ ports ↔ low ≤ port ∧ port ≤ high)
    {announce : Nat → α} {number : α → Nat}
    (back : ∀ port, port ≤ high → number (announce port) = port) :
    PassiveSearch.Complete ⟨tryPorts bind ports, ports.find? bind,
      (ports.find? bind).map announce⟩ number bind low high where
  found := by simp [all]
  named := by
    cases found : ports.find? bind with
    | none => rfl
    | some port => simp [back port ((all port).mp (mem_of_find?_eq_some found)).2]
  inside := by
    intro port found
    obtain ⟨least, most⟩ := (all port).mp (mem_of_find?_eq_some found)
    exact ⟨least, most, find?_some found⟩
  once := (tryPorts_start bind ports).sublist.nodup once

/-- Both searches find a port exactly if one of the range can be bound, and try none of
them twice; PASV goes around from a random place. -/
theorem passive_search_complete (bind : Nat → Bool) (low high random : Nat) (least : 1 ≤ low)
    (ordered : low ≤ high) (most : high ≤ 65535) :
    (doPasvSearch bind low high random).Complete (fun bytes => 256 * bytes.1 + bytes.2) bind low
      high ∧
    (doPasvSearch bind low high random).tried <+:
      pasvOrder low high (high - low + 1) (low + random % (high - low + 1)) ∧
    (doEpsvSearch bind low high).Complete id bind low high := by
  have inside : low + random % (high - low + 1) ≤ high := by
    have := Nat.mod_lt random (show high - low + 1 > 0 by omega)
    omega
  have range : ∀ port, port ∈ range' low (high + 1 - low) ↔ low ≤ port ∧ port ≤ high := by
    intro port
    rw [mem_range'_1]
    omega
  obtain ⟨once, all⟩ := pasvOrder_all ordered (Nat.le_add_right _ _) inside
  generalize order : pasvOrder low high (high - low + 1) (low + random % (high - low + 1)) = ports
    at once all ⊢
  have pasv : doPasvSearch bind low high random = ⟨tryPorts bind ports, ports.find? bind,
      (ports.find? bind).map fun port => (port >>> 8 &&& 0xff, port &&& 0xff)⟩ := by
    simp only [doPasvSearch, pasvLoop_eq ordered most _ inside, order]
    split
    · rename_i none
      simp [none]
    · rename_i port found
      have valid := (all port).mp (mem_of_find?_eq_some found)
      rw [if_neg (by omega), found, Nat.mod_eq_of_lt (show port < 65536 by omega)]
      rfl
  have epsv : doEpsvSearch bind low high =
      ⟨tryPorts bind (range' low (high + 1 - low)), (range' low (high + 1 - low)).find? bind,
        ((range' low (high + 1 - low)).find? bind).map id⟩ := by
    simp only [doEpsvSearch, epsvLoop_eq most _ (show low ≤ high + 1 by omega) (Nat.sub_le _ _)]
    cases found : (range' low (high + 1 - low)).find? bind with
    | none => simp
    | some port =>
      have valid := (range port).mp (mem_of_find?_eq_some found)
      rw [Option.getD_some, if_neg (by omega), Nat.mod_eq_of_lt (show port < 65536 by omega)]
      rfl
  rw [pasv, epsv]
  refine ⟨complete_of_find once all fun port below => ?_, tryPorts_start bind _, ?_⟩
  · exact bytes_of_port (Nat.le_trans below most)
  · exact complete_of_find nodup_range' range fun _ _ => rfl

theorem passive_search_complete_busy :
    (doPasvSearch (fun port => port = 2000) 2000 2002 1).announced = some (7, 208) ∧
      (doPasvSearch (fun port => port = 2000) 2000 2002 1).bound = some 2000 := by
  have complete := (passive_search_complete (fun port => port = 2000) 2000 2002 1 (by decide)
    (by decide) (by decide)).1
  have announced : (doPasvSearch (fun port => port = 2000) 2000 2002 1).announced =
      some (7, 208) := by decide
  exact ⟨announced, by rw [← complete.named, announced]; rfl⟩

end Wzdftpd
