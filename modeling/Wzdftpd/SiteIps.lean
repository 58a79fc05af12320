import Wzdftpd.Positions
import Wzdftpd.SiteSteps

/- SITE ADDIP and SITE DELIP (wzd_site_user.c): whether a command that fails leaves the
list of addresses as it was, and which entries a list of slot numbers removes. -/
namespace Wzdftpd

open CNumber Done Function IpEntry List Option Positions

open Positions (Descending without removeEach)

def Site.ipLists (site : Site) (uid : Nat) : Option (List IpEntry) :=
  (site.user uid).map UserRecord.ipList

def Done.Answers (done : Done) (code : Nat) : Prop := ∃ reply ∈ done.replies, reply.code = code

/-- The first address that `ip_add_check` would store is in the list already. -/
def RefusedFirst (w : SiteWorld) (list : List IpEntry) (ips : List Text) : Prop :=
  ∃ ignored ip rest, ips = ignored ++ ip :: rest ∧ (∀ long ∈ ignored, ipAddCheck [] long = []) ∧
    ipInlist w ip list

theorem ipAddCheck_append (list : List IpEntry) (ip : Text) :
    ipAddCheck list ip = list ++ ipAddCheck [] ip := by
  unfold ipAddCheck
  split
  · rw [append_nil]
  · rw [nil_append]

theorem length_le_addIps (w : SiteWorld) (ips : List Text) : ∀ list : List IpEntry,
    list.length ≤ (addIps w ips list).2.length := by
  induction ips with
  | nil => exact fun list => Nat.le_refl _
  | cons ip ips ih =>
    intro list
    rw [addIps]
    split
    · exact Nat.le_refl _
    · have longer := ih (ipAddCheck list ip)
      have grown : list.length ≤ (ipAddCheck list ip).length := by
        rw [ipAddCheck_append, length_append]
        exact Nat.le_add_right _ _
      exact Nat.le_trans grown longer

variable {list : List IpEntry} {ip : Text}

theorem refusedFirst_cons {w : SiteWorld} {ips : List Text} (absent : ¬ipInlist w ip list) :
    RefusedFirst w list (ip :: ips) ↔ ipAddCheck [] ip = [] ∧ RefusedFirst w list ips := by
  constructor
  · rintro ⟨ignored, found, rest, split, long, inside⟩
    cases ignored with
    | nil =>
      rw [nil_append, cons.injEq] at split
      rw [← split.1] at inside
      exact absurd inside absent
    | cons first ignored =>
      rw [cons_append, cons.injEq] at split
      rw [split.1]
      exact ⟨long first mem_cons_self, ignored, found, rest, split.2,
        (forall_mem_cons.mp long).2, inside⟩
  · rintro ⟨short, ignored, found, rest, rfl, long, inside⟩
    refine ⟨ip :: ignored, found, rest, rfl, fun other member => ?_, inside⟩
    rcases mem_cons.mp member with rfl | later
    · exact short
    · exact long other later

/-- SITE ADDIP that fails has left the list alone exactly if it has added nothing yet. -/
theorem addIps_unchanged_iff (w : SiteWorld) (list : List IpEntry) (ips : List Text)
    (failed : (addIps w ips list).1.code = 501) :
    (addIps w ips list).2 = list ↔ RefusedFirst w list ips := by
  induction ips with
  | nil => cases failed
  | cons ip ips ih =>
    rw [addIps] at failed ⊢
    by_cases inside : ipInlist w ip list
    · rw [if_pos inside]
      exact iff_of_true rfl ⟨[], ip, ips, rfl, fun _ none => absurd none not_mem_nil, inside⟩
    rw [if_neg inside] at failed ⊢
    rw [refusedFirst_cons inside]
    by_cases long : ipAddCheck [] ip = []
    · rw [ipAddCheck_append, long, append_nil] at failed ⊢
      simp [ih failed]
    · refine iff_of_false (fun same => ?_) fun both => long both.1
      have longer := length_le_addIps w ips (ipAddCheck list ip)
      have added := length_pos_of_ne_nil long
      rw [same, ipAddCheck_append, length_append] at longer
      omega

/-- An argument that SITE DELIP takes for a slot number. -/
def IsSlot (ip : Text) : Prop := (strtoul ip).2 = []

instance (ip : Text) : Decidable (IsSlot ip) := inferInstanceAs (Decidable (_ = _))

/-- One turn of the loop of SITE DELIP, `none` where the argument is not found. -/
def delIp (ip : Text) (list : List IpEntry) : Option (List IpEntry) :=
  if IsSlot ip then
    list[(strtoul ip).1 - 1]?.map fun entry => list.eraseP (·.regexp = entry.regexp)
  else ipRemove list ip

theorem delIps_of_none (ips : List Text) (missing : delIp ip list = none) :
    (delIps (ip :: ips) list).1.code = 501 ∧ (delIps (ip :: ips) list).2 = list := by
  unfold delIp at missing
  rw [delIps]
  by_cases number : IsSlot ip
  · rw [if_pos number, map_eq_none_iff] at missing
    have empty : (strtoul ip).2 = [] := number
    simp only [empty, missing, if_true]
    exact ⟨rfl, trivial⟩
  · rw [if_neg number] at missing
    have rest : (strtoul ip).2 ≠ [] := number
    simp only [rest, missing, if_false]
    exact ⟨rfl, trivial⟩

theorem delIps_of_some {after : List IpEntry} (ips : List Text)
    (removed : delIp ip list = some after) : delIps (ip :: ips) list = delIps ips after := by
  unfold delIp at removed
  rw [delIps]
  by_cases number : IsSlot ip
  · rw [if_pos number] at removed
    obtain ⟨_, here, same⟩ := map_eq_some_iff.mp removed
    have empty : (strtoul ip).2 = [] := number
    simp only [empty, here, if_true]
    rw [same]
  · rw [if_neg number] at removed
    have rest : (strtoul ip).2 ≠ [] := number
    simp [rest, removed]

theorem length_delIp {after : List IpEntry} (removed : delIp ip list = some after) :
    after.length < list.length := by
  have shorter : ∀ {text : Text}, (∃ entry ∈ list, entry.regexp = text) →
      (list.eraseP (·.regexp = text)).length < list.length := by
    rintro text ⟨entry, member, same⟩
    rw [length_eraseP_of_mem member (decide_eq_true same)]
    have := length_pos_of_mem member
    omega
  unfold delIp at removed
  split at removed
  · obtain ⟨entry, here, same⟩ := map_eq_some_iff.mp removed
    rw [← same]
    exact shorter ⟨entry, mem_of_getElem? here, rfl⟩
  unfold ipRemove at removed
  split at removed
  · rename_i found
    rw [← some.inj removed]
    obtain ⟨entry, member, same⟩ := any_eq_true.mp found
    exact shorter ⟨entry, member, of_decide_eq_true same⟩
  · cases removed

theorem length_delIps_le (ips : List Text) : ∀ list : List IpEntry,
    (delIps ips list).2.length ≤ list.length := by
  induction ips with
  | nil => exact fun list => Nat.le_refl _
  | cons ip ips ih =>
    intro list
    cases removed : delIp ip list with
    | none => rw [(delIps_of_none ips removed).2]
    | some after =>
      rw [delIps_of_some ips removed]
      exact Nat.le_trans (ih after) (Nat.le_of_lt (length_delIp removed))

theorem delIps_unchanged_iff (list : List IpEntry) (ips : List Text)
    (failed : (delIps ips list).1.code = 501) :
    (delIps ips list).2 = list ↔ ∀ ip ∈ ips.head?, delIp ip list = none := by
  cases ips with
  | nil => cases failed
  | cons ip ips =>
    cases removed : delIp ip list with
    | none =>
      refine iff_of_true (delIps_of_none ips removed).2 fun first same => ?_
      rw [← some.inj same]
      exact removed
    | some after =>
      refine iff_of_false (fun same => ?_) fun all => ?_
      · have shorter := length_delIps_le ips after
        rw [← delIps_of_some ips removed, same] at shorter
        exact absurd (length_delIp removed) (Nat.not_lt.mpr shorter)
      · rw [all ip rfl] at removed
        cases removed

def slotsOf (ips : List Text) : List Nat := ips.map fun ip => (strtoul ip).1

/-- The entry in a slot is the first with its text. -/
def Leads (list : List IpEntry) (slot : Nat) : Prop :=
  ∀ i < slot - 1, list[i]?.map regexp ≠ list[slot - 1]?.map regexp

theorem leads_of_nodup (once : (list.map regexp).Nodup) {slot : Nat}
    (inside : slot - 1 < list.length) : Leads list slot := by
  intro i before same
  rw [← getElem?_map, ← getElem?_map] at same
  have small : i < (list.map regexp).length := by
    rw [length_map]
    omega
  have equal := (getElem?_inj small once).mp same
  omega

theorem delIp_slot {after : List IpEntry} (number : IsSlot ip)
    (leads : Leads list (strtoul ip).1) (removed : delIp ip list = some after) :
    remove list (strtoul ip).1 = some after := by
  rw [delIp, if_pos number] at removed
  obtain ⟨entry, here, rfl⟩ := map_eq_some_iff.mp removed
  obtain ⟨inside, same⟩ := List.getElem?_eq_some_iff.mp here
  have first : list.findIdx? (fun other => decide (other.regexp = entry.regexp)) =
      some ((strtoul ip).1 - 1) := by
    rw [findIdx?_eq_some_iff_getElem]
    refine ⟨inside, decide_eq_true (congrArg regexp same), fun i before equal => ?_⟩
    apply leads i before
    rw [here, getElem?_eq_getElem (by omega)]
    exact congrArg some (of_decide_eq_true equal)
  rw [eraseP_eq_eraseIdx, first, remove, if_pos inside]

variable {ips : List Text} {site : Site}

theorem delIps_succeeds (done : (delIps (ip :: ips) list).1.code = 200) :
    ∃ after, delIp ip list = some after ∧ delIps (ip :: ips) list = delIps ips after := by
  cases removed : delIp ip list with
  | none =>
    rw [(delIps_of_none ips removed).1] at done
    cases done
  | some after => exact ⟨after, rfl, delIps_of_some ips removed⟩

/-- Slots removed one after the other, as long as each leads when its turn comes. -/
theorem removeEach_of_delIps (Kept : List IpEntry → List Nat → Prop)
    (leads : ∀ {list slot slots}, Kept list (slot :: slots) → slot - 1 < list.length →
      Leads list slot ∧ Kept (list.eraseIdx (slot - 1)) slots) (ips : List Text) :
    ∀ {list : List IpEntry}, (∀ ip ∈ ips, IsSlot ip) → Kept list (slotsOf ips) →
      (delIps ips list).1.code = 200 →
      removeEach (slotsOf ips) list = some (delIps ips list).2 := by
  induction ips with
  | nil => exact fun _ _ _ => rfl
  | cons ip ips ih =>
    intro list numbers kept done
    have number := numbers ip mem_cons_self
    obtain ⟨_, removed, rest⟩ := delIps_succeeds done
    have inside : (strtoul ip).1 - 1 < list.length := by
      rw [delIp, if_pos number] at removed
      obtain ⟨_, here, _⟩ := map_eq_some_iff.mp removed
      exact (List.getElem?_eq_some_iff.mp here).1
    obtain ⟨first, later⟩ := leads kept inside
    have same := delIp_slot number first removed
    rw [remove, if_pos inside, some.injEq] at same
    rw [rest] at done ⊢
    refine removeEach_cons.mpr ⟨inside, ?_⟩
    rw [same] at later ⊢
    exact ih (forall_mem_cons.mp numbers).2 later done

theorem removeEach_of_nodup (once : (list.map regexp).Nodup)
    (numbers : ∀ ip ∈ ips, IsSlot ip) (done : (delIps ips list).1.code = 200) :
    removeEach (slotsOf ips) list = some (delIps ips list).2 := by
  apply removeEach_of_delIps (fun list _ => (list.map regexp).Nodup) _ ips numbers once done
  intro list slot slots once inside
  exact ⟨leads_of_nodup once inside, once.sublist ((eraseIdx_sublist list (slot - 1)).map regexp)⟩

theorem Leads.eraseIdx {slot gone : Nat} (leads : Leads list slot) (before : slot < gone) :
    Leads (list.eraseIdx (gone - 1)) slot := by
  intro i early
  rw [getElem?_eraseIdx_of_lt (by omega), getElem?_eraseIdx_of_lt (by omega)]
  exact leads i early

/-- Descending slots that all lead. -/
theorem removeEach_of_descending_leads (descending : Descending (slotsOf ips))
    (leads : ∀ slot ∈ slotsOf ips, Leads list slot) (numbers : ∀ ip ∈ ips, IsSlot ip)
    (done : (delIps ips list).1.code = 200) :
    removeEach (slotsOf ips) list = some (delIps ips list).2 := by
  apply removeEach_of_delIps
    (fun list slots => Descending slots ∧ ∀ slot ∈ slots, Leads list slot) _ ips numbers
    ⟨descending, leads⟩ done
  rintro list slot slots ⟨descending, leads⟩ _
  obtain ⟨_, largest, later⟩ := descending_cons.mp descending
  refine ⟨leads slot mem_cons_self, later, fun other member => ?_⟩
  have old := leads other (mem_cons_of_mem slot member)
  have := largest other member
  exact old.eraseIdx (by omega)

theorem ipLists_put {user : UserRecord} (known : site.user user.id = some user)
    (list : List IpEntry) :
    (site.put { user with ipList := list }).ipLists = update site.ipLists user.id (some list) := by
  have own : ({ user with ipList := list } : UserRecord).uid = user.uid := rfl
  funext uid
  unfold Site.ipLists
  rw [Site.user_put known own]
  by_cases same : uid = user.id
  · simp [same]
  · rw [update_of_ne same, update_of_ne same]

theorem ipLists_put_eq_iff {user : UserRecord}
    (known : site.user user.id = some user) (list : List IpEntry) :
    (site.put { user with ipList := list }).ipLists = site.ipLists ↔ list = user.ipList := by
  have here : site.ipLists user.id = some user.ipList := by
    simp [Site.ipLists, known]
  simp [ipLists_put known, here, some.injEq]

theorem Done.answers_single {reply : Reply} {job : Option Job} {code : Nat} :
    Answers ⟨[reply], site, job⟩ code ↔ reply.code = code := by
  unfold Answers
  simp

/-- A command that edits the list of one user leaves all lists alone exactly if the edit
leaves that list alone. -/
theorem ipLists_unchanged_iff {caller : Caller}
    {target : UserRecord → Check (UserRecord × List Text)}
    {edit : List Text → List IpEntry → Reply × List IpEntry}
    {Fine : List IpEntry → List Text → Prop} {done : Done}
    (known : ∀ {me user ips}, target me = .ok (user, ips) → site.user user.id = some user)
    (unchanged : ∀ list ips, (edit ips list).1.code = 501 →
      ((edit ips list).2 = list ↔ Fine list ips))
    (ran : serve site caller target (fun _ plan =>
      some ⟨[(edit plan.2 plan.1.ipList).1],
        site.put { plan.1 with ipList := (edit plan.2 plan.1.ipList).2 }, none⟩) = some done)
    (failed : done.Answers 501) :
    done.site.ipLists = site.ipLists ↔
      ∀ me user ips, site.user caller.userid = some me → target me = .ok (user, ips) →
        Fine user.ipList ips := by
  obtain ⟨me, here, ⟨_, refused, rfl⟩ | ⟨⟨user, ips⟩, passed, ran⟩⟩ := serve_cases ran
  · refine iff_of_true rfl fun other user ips caller passed => ?_
    rw [← some.inj (here.symm.trans caller), refused] at passed
    cases passed
  cases ran
  rw [ipLists_put_eq_iff (known passed), unchanged _ ips (answers_single.mp failed)]
  constructor
  · intro fine other user' ips' caller again
    rw [← some.inj (here.symm.trans caller), passed] at again
    cases again
    exact fine
  · exact fun all => all me user ips here passed

/-- SITE ADDIP that fails leaves all lists alone exactly if it has added nothing before;
SITE DELIP that fails, exactly if its first argument is the one that is not found. Slots
are removed as they were numbered before the command if they descend and no entry in
front of one has its text; in a list of distinct texts only if they descend. -/
theorem ip_commands_all_or_nothing_iff (w : SiteWorld) (caller : Caller) (line : Text)
    (site : Site) :
    (∀ done, doSiteAddip w caller line site = some done → done.Answers 501 →
      (done.site.ipLists = site.ipLists ↔
        ∀ me user ips, site.user caller.userid = some me →
          addipTarget site line me = .ok (user, ips) → RefusedFirst w user.ipList ips)) ∧
    (∀ done, doSiteDelip caller line site = some done → done.Answers 501 →
      (done.site.ipLists = site.ipLists ↔
        ∀ me user ips, site.user caller.userid = some me →
          delipTarget site line me = .ok (user, ips) →
          ∀ ip ∈ ips.head?, delIp ip user.ipList = none)) ∧
    (∀ done me user ips, doSiteDelip caller line site = some done → done.Answers 200 →
      site.user caller.userid = some me → delipTarget site line me = .ok (user, ips) →
      (∀ ip ∈ ips, IsSlot ip) →
      (Descending (slotsOf ips) → (∀ slot ∈ slotsOf ips, Leads user.ipList slot) →
        done.site.ipLists = update site.ipLists user.id
          (some (without (slotsOf ips) user.ipList))) ∧
      ((user.ipList.map regexp).Nodup →
        (done.site.ipLists = update site.ipLists user.id
          (some (without (slotsOf ips) user.ipList)) ↔ Descending (slotsOf ips)))) := by
  refine ⟨fun done ran failed => ?_, fun done ran failed => ?_, ?_⟩
  · exact ipLists_unchanged_iff (fun passed => (addipTarget_ok passed).known)
      (addIps_unchanged_iff w) ran failed
  · exact ipLists_unchanged_iff (fun passed => (delipTarget_ok passed).known)
      delIps_unchanged_iff ran failed
  intro done me user ips ran succeeded here passed numbers
  rw [doSiteDelip, serve_of_ok here passed] at ran
  cases ran
  have succeeded := answers_single.mp succeeded
  rw [ipLists_put (delipTarget_ok passed).known]
  constructor
  · intro descending leads
    have removed := removeEach_of_descending_leads descending leads numbers succeeded
    rw [removeEach_of_descending _ descending removed]
  · intro once
    have removed := removeEach_of_nodup once numbers succeeded
    have distinct : user.ipList.Nodup := once.of_map regexp
    rw [← removeEach_eq_without_iff _ distinct removed,
      (update_injective site.ipLists user.id).eq_iff, some.injEq]

def ipWorld : SiteWorld where
  changepass := fun _ pass => some pass
  isDir := fun _ => true
  ipCompare := fun ip regexp => ip = regexp

def ipUser : UserRecord :=
  { uid := 1, username := "ann".toList
    ipList := [⟨"10.0.0.1".toList, true⟩, ⟨"10.0.0.2".toList, true⟩, ⟨"10.0.0.3".toList, true⟩] }

def ipSite : Site := .holding [ipUser] []

def Done.seen (done : Done) : List Nat × Option (List IpEntry) :=
  (done.replies.map Reply.code, done.site.ipLists 1)

/-- The second slot and then the first are removed as they were numbered. -/
theorem ip_commands_all_or_nothing_descending :
    (doSiteDelip ⟨1, 1⟩ "ann 2 1".toList ipSite).map seen =
      some ([200], some [⟨"10.0.0.3".toList, true⟩]) ∧
    ∀ done, doSiteDelip ⟨1, 1⟩ "ann 2 1".toList ipSite = some done → done.Answers 200 →
      (done.site.ipLists = update ipSite.ipLists ipUser.id
        (some (without [2, 1] ipUser.ipList)) ↔ Descending [2, 1]) := by
  refine ⟨by decide, fun done ran succeeded => ?_⟩
  have both := (ip_commands_all_or_nothing_iff ipWorld ⟨1, 1⟩ "ann 2 1".toList ipSite).2.2 done
    ipUser ipUser ["2".toList, "1".toList] ran succeeded (by decide) (by decide)
    (by decide)
  exact both.2 (by decide)

/-- An address is added, or removed, and the command fails at the next; and the second
slot is another one once the first is removed. -/
theorem ip_commands_leave_changes :
    (doSiteAddip ipWorld ⟨1, 1⟩ "ann 10.0.0.4 10.0.0.1".toList ipSite).map seen =
      some ([501], some (ipUser.ipList ++ [⟨"10.0.0.4".toList, true⟩])) ∧
    (doSiteDelip ⟨1, 1⟩ "ann 1 9".toList ipSite).map seen =
      some ([501], some [⟨"10.0.0.2".toList, true⟩, ⟨"10.0.0.3".toList, true⟩]) ∧
    (doSiteDelip ⟨1, 1⟩ "ann 1 2".toList ipSite).map seen =
      some ([200], some [⟨"10.0.0.2".toList, true⟩]) ∧
    without [1, 2] ipUser.ipList = [⟨"10.0.0.3".toList, true⟩] := by
  decide

end Wzdftpd
