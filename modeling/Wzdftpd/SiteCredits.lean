import Wzdftpd.SiteEffects

/- SITE GIVE and SITE TAKE. A gift of an ordinary user is taken from the own credits, and is
clipped where the other account would pass the largest value. -/
namespace Wzdftpd

open Site UserRecord Option Function

/-- A line that names an account and an amount. -/
def CreditLine (line name : Text) (n : Nat) : Prop :=
  ∃ rest amount behind, strtok blanks line = (some name, rest) ∧
    strtok blanks rest = (some amount, behind) ∧ numberArg amount = some n

def Site.creditsOf (site : Site) (uid : Nat) : Nat :=
  ((site.user uid).map fun user => user.credits.toNat).getD 0

theorem toNat_ullong_sub (n : UInt64) : (ullong - n).toNat = 2 ^ 64 - 1 - n.toNat := by
  have small := n.toNat_lt
  rw [UInt64.toNat_sub_of_le]
  · rfl
  · change n.toNat ≤ 2 ^ 64 - 1
    omega

theorem clipped_le (credits bytes : UInt64) : (clipped credits bytes).toNat ≤ bytes.toNat := by
  unfold clipped
  split
  · rename_i full
    rw [UInt64.le_iff_toNat_le, toNat_ullong_sub] at full
    rw [toNat_ullong_sub]
    omega
  · exact Nat.le_refl _

theorem toNat_toppedUp (credits bytes : UInt64) :
    (toppedUp credits bytes).toNat = credits.toNat + (clipped credits bytes).toNat := by
  have small := credits.toNat_lt
  unfold toppedUp clipped
  split
  · rw [toNat_ullong_sub]
    change 2 ^ 64 - 1 = _
    omega
  · rename_i room
    rw [UInt64.le_iff_toNat_le, toNat_ullong_sub] at room
    rw [UInt64.toNat_add, Nat.mod_eq_of_lt (by omega)]

variable {site : Site} {me : UserRecord}

variable {line : Text}

theorem givePlan_eq_ok {gift : Gift} :
    givePlan site line me = .ok gift ↔ ∃ name n, CreditLine line name n ∧
      site.userNamed name = some gift.user ∧ gift.bytes = UInt64.ofNat n ∧
      gift.free = (me.has 'O' || me.has 'G' && me.sameGroup gift.user) ∧
      (gift.free = false → me.ratio ≠ 0 ∧ gift.bytes ≤ me.credits) ∧ gift.user.ratio ≠ 0 := by
  simp only [givePlan, Check.bind_eq_ok, word_eq_ok, found_eq_ok, refuseIf_eq_ok, Check.pure_eq_ok,
    Prod.exists, CreditLine]
  constructor
  · rintro ⟨name, rest, first, amount, behind, second, user, named, n, number, _, ratio, _, enough,
      _, leech, rfl⟩
    refine ⟨name, n, ⟨rest, amount, behind, first, second, number⟩, named, rfl, rfl, ?_, ?_⟩
    · intro paid
      simp only at paid
      simp only [paid, Bool.not_false, Bool.true_and, decide_eq_false_iff_not] at ratio enough
      exact ⟨ratio, UInt64.not_lt.mp enough⟩
    · exact of_decide_eq_false leech
  · rintro ⟨name, n, ⟨rest, amount, behind, first, second, number⟩, named, bytes, free, paid, leech⟩
    obtain ⟨user, _⟩ := gift
    simp only at named bytes free paid leech
    subst bytes free
    refine ⟨name, rest, first, amount, behind, second, user, named, n, number, (), ?_, (), ?_, (),
      decide_eq_false leech, rfl⟩
    · cases free : (me.has 'O' || me.has 'G' && me.sameGroup user) with
      | true => rfl
      | false => simp [(paid free).1]
    · cases free : (me.has 'O' || me.has 'G' && me.sameGroup user) with
      | true => rfl
      | false => simp [(paid free).2]

theorem takePlan_eq_ok {plan : UserRecord × UInt64} :
    takePlan site line me = .ok plan ↔ me.has 'G' = true ∧ me.has 'O' = true ∧
      ∃ name n, CreditLine line name n ∧ site.userNamed name = some plan.1 ∧
        plan.2 = UInt64.ofNat n ∧ me.sameGroup plan.1 = true ∧ plan.1.ratio ≠ 0 := by
  simp only [takePlan, Check.bind_eq_ok, word_eq_ok, found_eq_ok, refuseIf_eq_ok, Check.pure_eq_ok,
    Prod.exists, CreditLine]
  constructor
  · rintro ⟨_, both, name, rest, first, amount, behind, second, _, named, n, number, _, group, _,
      leech, rfl⟩
    simp only [decide_eq_false_iff_not, not_or, not_not] at both leech
    simp only [both.1, true_and, decide_eq_false_iff_not, not_not] at group
    exact ⟨both.1, both.2, name, n, ⟨rest, amount, behind, first, second, number⟩, named, rfl,
      group, leech⟩
  · rintro ⟨gadmin, siteop, name, n, ⟨rest, amount, behind, first, second, number⟩, named, bytes,
      group, leech⟩
    refine ⟨(), by simp [gadmin, siteop], name, rest, first, amount, behind, second, plan.1, named,
      n, number, (), by simp [group], (), decide_eq_false leech, Prod.ext rfl bytes.symm⟩

/-- What a gift does: the sum of all credits stays, and one account has lost what another
has gained, over the integers. -/
structure Conserves (caller : Caller) (site : Site) (done : Done) : Prop where
  total : done.site.users.total (·.credits.toNat) = site.users.total (·.credits.toNat)
  moved : ∃ receiver n, ∀ uid, done.site.creditsOf uid + (if uid = caller.userid then n else 0) =
    site.creditsOf uid + (if uid = receiver then n else 0)
  flags : ∀ uid, (done.site.user uid).map flags = (site.user uid).map flags

/-- A command that refuses has changed no account. -/
def Done.RefusesOnly (done : Done) (site : Site) : Prop :=
  (∃ reply ∈ done.replies, reply.code = 501) → done.site = site

variable {user : UserRecord}

theorem Site.creditsOf_eq {uid : Nat} (known : site.user uid = some user) :
    site.creditsOf uid = user.credits.toNat := by
  simp [creditsOf, known]

theorem Site.creditsOf_put {old edited : UserRecord} (known : site.user user.id = some old)
    (same : edited.uid = user.uid) (uid : Nat) : (site.put edited).creditsOf uid =
      if uid = user.id then edited.credits.toNat else site.creditsOf uid := by
  rw [creditsOf, user_put known same, update_apply]
  split <;> rfl

theorem Site.flags_put {edited : UserRecord} (known : site.user user.id = some user)
    (same : edited.uid = user.uid) (kept : edited.flags = user.flags) (uid : Nat) :
    ((site.put edited).user uid).map flags = (site.user uid).map flags := by
  rw [user_put known same, update_apply]
  split
  · rename_i own
    simp [own, known, kept]
  · rfl

variable {caller : Caller}

/-- Two records change, one after the other: the first has its new credits, and the second,
which may be the same, loses what was given. -/
def Site.transfer (site : Site) (user now : UserRecord) (more given : UInt64) : Site :=
  (site.put (user.funded more)).put (now.funded (now.credits - given))

section Transfer

variable {now : UserRecord} {more given : UInt64}

theorem conserves_transfer (known : site.user user.id = some user)
    (gain : more.toNat = user.credits.toNat + given.toNat)
    (there : (site.put (user.funded more)).user caller.userid = some now)
    (enough : given ≤ now.credits) (replies : List Reply) :
    Conserves caller site ⟨replies, site.transfer user now more given, none⟩ := by
  have uid := user.uid_funded more
  have unpaid := now.uid_funded (now.credits - given)
  have left : (now.credits - given).toNat + given.toNat = now.credits.toNat := by
    rw [UInt64.toNat_sub_of_le _ _ enough]
    rw [UInt64.le_iff_toNat_le] at enough
    omega
  refine ⟨?_, ⟨user.id, given.toNat, fun uid' => ?_⟩, fun uid' => ?_⟩
  · have richer := total_put (fun user => user.credits.toNat) known uid
    have poorer := total_put (fun user => user.credits.toNat) (user_of_user there) unpaid
    simp only [credits_funded] at richer poorer
    simp only [Site.transfer]
    omega
  · have richer : (site.put (user.funded more)).creditsOf uid' = site.creditsOf uid' +
        if uid' = user.id then given.toNat else 0 := by
      rw [creditsOf_put known uid]
      split
      · rename_i receiver
        rw [receiver, creditsOf_eq known, credits_funded, gain]
      · rfl
    rw [← richer, Site.transfer, creditsOf_put (user_of_user there) unpaid, id_of_user there]
    split
    · rename_i sender
      rw [sender, creditsOf_eq there, credits_funded, left]
    · rfl
  · exact (flags_put (user_of_user there) unpaid (now.flags_funded _) uid').trans
      (flags_put known uid (user.flags_funded _) uid')

/-- The table after a gift is the old one exactly if nothing is moved. -/
theorem transfer_eq_iff (known : site.user user.id = some user)
    (gain : more.toNat = user.credits.toNat + given.toNat)
    (there : (site.put (user.funded more)).user caller.userid = some now) :
    site.transfer user now more given = site ↔ given = 0 ∨ user.id = caller.userid := by
  have uid := user.uid_funded more
  rw [Site.transfer]
  by_cases own : user.id = caller.userid
  · rw [← own, user_put_self known uid] at there
    cases there
    have back : more - given = user.credits := by
      rw [← UInt64.toNat_inj, UInt64.toNat_sub_of_le, gain, Nat.add_sub_cancel]
      rw [UInt64.le_iff_toNat_le, gain]
      exact Nat.le_add_left _ _
    refine iff_of_true ?_ (.inr own)
    rw [credits_funded, back, funded_funded, funded_self]
    exact (put_put uid.symm).trans (put_eq_self known)
  by_cases nothing : given = 0
  · have same : more = user.credits := by
      rw [← UInt64.toNat_inj, gain, nothing]
      rfl
    refine iff_of_true ?_ (.inl nothing)
    rw [nothing, UInt64.sub_zero, funded_self, put_eq_self (user_of_user there), same, funded_self]
    exact put_eq_self known
  · refine iff_of_false (fun same => nothing ?_) (not_or.mpr ⟨nothing, own⟩)
    have credits : site.creditsOf user.id = more.toNat := by
      rw [← same, creditsOf_put (user_of_user there) (now.uid_funded _), id_of_user there,
        if_neg own, creditsOf_put known uid, if_pos rfl, credits_funded]
    rw [creditsOf_eq known, gain] at credits
    apply UInt64.toNat_inj.mp
    change _ = 0
    omega

/-- If something is moved, the backend is given the record of the receiver. -/
theorem commits_transfer (w : SiteWorld) (known : site.user user.id = some user)
    (there : (site.put (user.funded more)).user caller.userid = some now)
    (other : user.id ≠ caller.userid) :
    (site.transfer user now more given).commits w user.id = w.commits (user.funded more) := by
  rw [← id_of_user there] at other
  rw [commits, Site.transfer, user_put_of_ne (user_of_user there) (now.uid_funded _) other,
    user_put_self known (user.uid_funded more)]
  rfl

end Transfer

/-- The backend takes the account that receives, or nothing is moved: the amount is 0 or the
account is full, or it is the own one. -/
def Committed (w : SiteWorld) (caller : Caller) (gift : Gift) : Prop :=
  (clipped gift.user.credits gift.bytes = 0 ∨ gift.user.id = caller.userid) ∨
    w.commits (gift.user.funded (toppedUp gift.user.credits gift.bytes)) = true

theorem give_of_plan {w : SiteWorld} {line : Text} {gift : Gift}
    (here : site.user caller.userid = some me) (plan : givePlan site line me = .ok gift)
    (paid : gift.free = false) :
    doSiteGive w caller line site =
      ((site.put (gift.user.funded (toppedUp gift.user.credits gift.bytes))).user
        caller.userid).map fun now =>
          ⟨[creditsReply w (site.transfer gift.user now (toppedUp gift.user.credits gift.bytes)
              (clipped gift.user.credits gift.bytes)) gift.user.id "Credits given"],
            site.transfer gift.user now (toppedUp gift.user.credits gift.bytes)
              (clipped gift.user.credits gift.bytes), none⟩ := by
  rw [doSiteGive, serve_of_ok here plan]
  simp only [paid]
  rfl

theorem give_conserves (w : SiteWorld) (line : Text) (here : site.user caller.userid = some me)
    (ordinary : me.has 'O' = false ∧ me.has 'G' = false) :
    ∃ done, doSiteGive w caller line site = some done ∧ Conserves caller site done ∧
      (done.RefusesOnly site ↔ ∀ gift, givePlan site line me = .ok gift →
        Committed w caller gift) := by
  cases plan : givePlan site line me with
  | error reply =>
    refine ⟨⟨[reply], site, none⟩, ?_, ⟨rfl, ⟨0, 0, fun _ => by simp⟩, fun _ => rfl⟩, ?_⟩
    · simp [doSiteGive, serve, here, plan]
    · exact iff_of_true (fun _ => rfl) fun _ passed => by cases passed
  | ok gift =>
    obtain ⟨_, _, _, named, _, free, paid, _⟩ := givePlan_eq_ok.mp plan
    rw [ordinary.1, ordinary.2] at free
    have enough := (paid free).2
    have known := (user_of_userNamed named).1
    have gain := toNat_toppedUp gift.user.credits gift.bytes
    have clip := clipped_le gift.user.credits gift.bytes
    have only : (∀ other, Except.ok gift = (Except.ok other : Check Gift) →
        Committed w caller other) ↔ Committed w caller gift :=
      ⟨fun all => all gift rfl, fun committed other same => by cases same; exact committed⟩
    rw [give_of_plan here plan free, only, Committed]
    generalize toppedUp gift.user.credits gift.bytes = more at gain ⊢
    generalize clipped gift.user.credits gift.bytes = given at gain clip ⊢
    obtain ⟨now, there, which⟩ := user_put_caller known (gift.user.uid_funded more) here
    have covered : given ≤ now.credits := by
      rw [UInt64.le_iff_toNat_le] at enough ⊢
      rcases which with ⟨rfl, rfl⟩ | rfl
      · rw [credits_funded, gain]
        omega
      · omega
    rw [there, map_some]
    refine ⟨_, rfl, conserves_transfer known gain there covered _, ?_⟩
    have unmoved := transfer_eq_iff known gain there
    rw [← unmoved, Done.RefusesOnly]
    by_cases same : site.transfer gift.user now more given = site
    · exact iff_of_true (fun _ => same) (.inl same)
    · have other := (not_or.mp (mt unmoved.mpr same)).2
      rw [creditsReply, commits_transfer w known there other]
      cases w.commits (gift.user.funded more) with
      | true => simp [accept]
      | false => simp [refuse, same]

/-- A SITE GIVE, with what the outside answers to it. -/
structure GiftCall where
  w : SiteWorld
  caller : Caller
  line : Text

def giveStep (s : Option Site) (call : GiftCall) : Option Site :=
  s.bind fun site => (doSiteGive call.w call.caller call.line site).map Done.site

def GiftConserves (s : Option Site) (call : GiftCall) : Prop :=
  ∃ site done, s = some site ∧ doSiteGive call.w call.caller call.line site = some done ∧
    Conserves call.caller site done

def GiftRefuses (s : Option Site) (call : GiftCall) : Prop :=
  ∀ site done, s = some site → doSiteGive call.w call.caller call.line site = some done →
    done.RefusesOnly site

def GiftCommitted (s : Option Site) (call : GiftCall) : Prop :=
  ∀ site me gift, s = some site → site.user call.caller.userid = some me →
    givePlan site call.line me = .ok gift → Committed call.w call.caller gift

def Ordinary (site : Site) (caller : Caller) : Prop :=
  ∃ me, site.user caller.userid = some me ∧ me.has 'O' = false ∧ me.has 'G' = false

theorem Ordinary.of_flags {other : Site} (ordinary : Ordinary site caller)
    (same : ∀ uid, (other.user uid).map flags = (site.user uid).map flags) :
    Ordinary other caller := by
  obtain ⟨_, here, siteop, gadmin⟩ := ordinary
  have flags := same caller.userid
  rw [here] at flags
  obtain ⟨now, there, equal⟩ := map_eq_some_iff.mp flags
  refine ⟨now, there, ?_, ?_⟩
  · rw [has_eq equal]
    exact siteop
  · rw [has_eq equal]
    exact gadmin

/-- A gift of an ordinary user, as one step of a run. -/
theorem giveStep_ordinary {call : GiftCall} (ordinary : Ordinary site call.caller) :
    GiftConserves (some site) call ∧
      (GiftRefuses (some site) call ↔ GiftCommitted (some site) call) ∧
      ∃ now, giveStep (some site) call = some now ∧
        ∀ uid, (now.user uid).map flags = (site.user uid).map flags := by
  obtain ⟨me, here, plain⟩ := ordinary
  obtain ⟨done, given, conserves, refuses⟩ := give_conserves call.w call.line here plain
  refine ⟨⟨site, done, rfl, given, conserves⟩, ?_, done.site, ?_, conserves.flags⟩
  · constructor
    · rintro all _ me' gift ⟨⟩ here' plan
      cases here.symm.trans here'
      exact refuses.mp (all site done rfl given) gift plan
    · rintro all _ done' ⟨⟩ given'
      cases given.symm.trans given'
      exact refuses.mpr fun gift => all site me gift rfl here
  · simp [giveStep, given]

/-- Along any run of gifts of ordinary users every gift conserves the credits; a refusal
changes no account exactly as long as the backend takes what was moved. -/
theorem gifts_conserve_credits (site : Site) (gifts : List GiftCall)
    (ordinary : ∀ gift ∈ gifts, Ordinary site gift.caller) :
    Runs.Always giveStep GiftConserves (some site) gifts ∧
      (Runs.Always giveStep GiftRefuses (some site) gifts ↔
        Runs.Always giveStep GiftCommitted (some site) gifts) := by
  induction gifts generalizing site with
  | nil => exact ⟨trivial, Iff.rfl⟩
  | cons gift gifts ih =>
    obtain ⟨first, others⟩ := List.forall_mem_cons.mp ordinary
    obtain ⟨conserves, refuses, now, next, same⟩ := giveStep_ordinary first
    have later := ih now fun other member => (others other member).of_flags same
    rw [← next] at later
    exact ⟨⟨conserves, later.1⟩, and_congr refuses later.2⟩

def giftSite : Site :=
  .holding [{ uid := 1, username := "ann".toList, ratio := 3, credits := 50 },
    { uid := 2, username := "bob".toList, ratio := 3, credits := 0xfffffffffffffff0 }] []

/-- Bob takes only 15 of the 20 credits, and nobody gains by a gift to oneself. -/
theorem gifts_conserve_credits_clipped :
    Runs.Always giveStep GiftConserves (some giftSite)
      [⟨plainWorld, ⟨1, 1⟩, "bob 20".toList⟩, ⟨plainWorld, ⟨1, 1⟩, "ann 35".toList⟩] ∧
    Runs.Always giveStep GiftRefuses (some giftSite)
      [⟨plainWorld, ⟨1, 1⟩, "bob 20".toList⟩, ⟨plainWorld, ⟨1, 1⟩, "ann 35".toList⟩] ∧
    (doSiteGive plainWorld ⟨1, 1⟩ "bob 20".toList giftSite).map (fun done =>
      done.site.creditsOf 1) = some 35 := by
  obtain ⟨conserves, refuses⟩ := gifts_conserve_credits giftSite
    [⟨plainWorld, ⟨1, 1⟩, "bob 20".toList⟩, ⟨plainWorld, ⟨1, 1⟩, "ann 35".toList⟩] (by
    intro gift member
    have sender : gift.caller.userid = 1 := by
      rcases List.mem_cons.mp member with rfl | later
      · rfl
      · rw [List.mem_singleton.mp later]
    unfold Ordinary
    rw [sender]
    exact ⟨{ uid := 1, username := "ann".toList, ratio := 3, credits := 50 }, by decide,
      by decide, by decide⟩)
  refine ⟨conserves, refuses.mpr ⟨?_, ?_, trivial⟩, by decide⟩
  · exact fun _ _ _ _ _ _ => .inr rfl
  · exact fun _ _ _ _ _ _ => .inr rfl

/-- The backend is down: the gift is refused, and both accounts have changed. -/
theorem refused_gift_moves_credits :
    ((doSiteGive { plainWorld with commits := fun _ => false } ⟨1, 1⟩ "bob 5".toList
      giftSite).map fun done => (done.replies, done.site.creditsOf 1, done.site.creditsOf 2)) =
        some ([refuse "Problem changing value"], 45, 0xfffffffffffffff5) ∧
    giftSite.creditsOf 1 = 50 ∧ giftSite.creditsOf 2 = 0xfffffffffffffff0 :=
  ⟨by decide, by decide, by decide⟩

theorem toNat_toppedUp_of_room {credits bytes : UInt64}
    (room : credits.toNat + bytes.toNat < 2 ^ 64) :
    (toppedUp credits bytes).toNat = credits.toNat + bytes.toNat := by
  unfold toppedUp
  split
  · rename_i full
    rw [UInt64.le_iff_toNat_le, toNat_ullong_sub] at full
    change 2 ^ 64 - 1 = _
    omega
  · rw [UInt64.toNat_add, Nat.mod_eq_of_lt room]

theorem toNat_sub_or_zero (value amount : UInt64) :
    (if value > amount then value - amount else 0).toNat = value.toNat - amount.toNat := by
  split
  · rename_i larger
    exact UInt64.toNat_sub_of_le _ _ (UInt64.le_of_lt larger)
  · rename_i small
    rw [gt_iff_lt, UInt64.lt_iff_toNat_lt] at small
    change 0 = _
    omega

variable {w : SiteWorld}

theorem give_of_admin {name : Text} {n : Nat}
    (here : site.user caller.userid = some me) (admin : me.has 'O' = true ∨ me.has 'G' = true)
    (text : CreditLine line name n) (named : site.userNamed name = some user)
    (ratio : user.ratio ≠ 0) (group : me.has 'G' = true → me.sameGroup user = true) :
    ∃ reply, doSiteGive w caller line site = some ⟨[reply],
      site.put { user with credits := toppedUp user.credits (UInt64.ofNat n) }, none⟩ := by
  have free : (me.has 'O' || me.has 'G' && me.sameGroup user) = true := by
    rcases admin with siteop | gadmin
    · simp [siteop]
    · simp [gadmin, group gadmin]
  have plan : givePlan site line me = .ok ⟨user, UInt64.ofNat n, true⟩ :=
    givePlan_eq_ok.mpr ⟨name, n, text, named, rfl, free.symm, (fun paid => by cases paid), ratio⟩
  rw [doSiteGive, serve_of_ok here plan]
  exact ⟨_, rfl⟩

theorem take_refused (line : Text) (here : site.user caller.userid = some me)
    (one : ¬(me.has 'O' = true ∧ me.has 'G' = true)) :
    ∃ reply, doSiteTake w caller line site = some ⟨[reply], site, none⟩ := by
  cases plan : takePlan site line me with
  | error reply =>
    refine ⟨reply, ?_⟩
    simp [doSiteTake, serve, here, plan]
  | ok taken =>
    obtain ⟨gadmin, siteop, _⟩ := takePlan_eq_ok.mp plan
    exact absurd ⟨siteop, gadmin⟩ one

theorem take_of_both {name : Text} {n : Nat}
    (here : site.user caller.userid = some me) (both : me.has 'O' = true ∧ me.has 'G' = true)
    (text : CreditLine line name n) (named : site.userNamed name = some user)
    (ratio : user.ratio ≠ 0) (group : me.sameGroup user = true) :
    ∃ reply, doSiteTake w caller line site = some ⟨[reply],
      site.put { user with credits :=
        if user.credits > UInt64.ofNat n then user.credits - UInt64.ofNat n else 0 }, none⟩ := by
  have plan : takePlan site line me = .ok (user, UInt64.ofNat n) :=
    takePlan_eq_ok.mpr ⟨both.2, both.1, name, n, text, named, rfl, group, ratio⟩
  rw [doSiteTake, serve_of_ok here plan]
  exact ⟨_, rfl⟩

theorem caller_after_put {richer : UserRecord} (here : site.user caller.userid = some me)
    (known : site.user user.id = some user) (uid : richer.uid = user.uid)
    (flags : richer.flags = user.flags) (groups : richer.groups = user.groups) :
    ∃ now, (site.put richer).user caller.userid = some now ∧ now.flags = me.flags ∧
      now.groups = me.groups := by
  obtain ⟨now, there, ⟨rfl, rfl⟩ | rfl⟩ := user_put_caller known uid here
  · exact ⟨now, there, flags, groups⟩
  · exact ⟨now, there, rfl, rfl⟩

/-- SITE TAKE takes a gift back exactly when nothing was given, or when the account that
gives is site operator and group admin; and the commands make no such account. -/
theorem take_undoes_give_iff (w : SiteWorld) (site : Site) (caller : Caller)
    (me user : UserRecord) (line name : Text) (n : Nat) (here : site.user caller.userid = some me)
    (admin : me.has 'O' = true ∨ me.has 'G' = true) (text : CreditLine line name n)
    (named : site.userNamed name = some user) (ratio : user.ratio ≠ 0)
    (group : me.has 'G' = true → me.sameGroup user = true)
    (room : user.credits.toNat + n < 2 ^ 64) :
    ∃ given taken, doSiteGive w caller line site = some given ∧
      doSiteTake w caller line given.site = some taken ∧
      (taken.site.creditsOf user.id = site.creditsOf user.id ↔
        n = 0 ∨ me.has 'O' = true ∧ me.has 'G' = true) ∧
      (site.Reachable → ¬(me.has 'O' = true ∧ me.has 'G' = true)) := by
  have known := (user_of_userNamed named).1
  have amount : (UInt64.ofNat n).toNat = n := UInt64.toNat_ofNat_of_lt' (by
    change n < 2 ^ 64
    omega)
  have gain : (toppedUp user.credits (UInt64.ofNat n)).toNat = user.credits.toNat + n := by
    rw [toNat_toppedUp_of_room (amount.symm ▸ room), amount]
  obtain ⟨_, gave⟩ := give_of_admin (w := w) here admin text named ratio group
  generalize toppedUp user.credits (UInt64.ofNat n) = more at gain gave
  have next : ∃ now, (site.put { user with credits := more }).user caller.userid = some now ∧
      now.flags = me.flags ∧ now.groups = me.groups := caller_after_put here known rfl rfl rfl
  obtain ⟨now, there, flags, groups⟩ := next
  have exclusive : site.Reachable → ¬(me.has 'O' = true ∧ me.has 'G' = true) := by
    intro reachable both
    simp only [has, decide_eq_true_eq] at both
    exact reachable.exclusive _ _ here both
  have richer : (site.put { user with credits := more }).user user.id =
      some { user with credits := more } := user_put_self known rfl
  rw [creditsOf_eq known]
  by_cases both : me.has 'O' = true ∧ me.has 'G' = true
  · have found : (site.put { user with credits := more }).userNamed name =
        some { user with credits := more } := userNamed_put named rfl rfl rfl
    have bothNow : now.has 'O' = true ∧ now.has 'G' = true := by
      rwa [has_eq flags, has_eq flags]
    have groupNow : now.sameGroup { user with credits := more } = true := by
      rw [UserRecord.sameGroup, groups]
      exact group both.2
    obtain ⟨_, took⟩ := take_of_both (w := w) there bothNow text found ratio groupNow
    have left := toNat_sub_or_zero more (UInt64.ofNat n)
    rw [gain, amount, Nat.add_sub_cancel] at left
    refine ⟨_, _, gave, took, iff_of_true ?_ (.inr both), exclusive⟩
    generalize (if more > UInt64.ofNat n then more - UInt64.ofNat n else 0) = less at left ⊢
    rw [← left]
    refine creditsOf_eq (user_put_self richer ?_)
    rfl
  · obtain ⟨_, refused⟩ := take_refused (w := w) line there
      (by rwa [has_eq flags, has_eq flags])
    refine ⟨_, _, gave, refused, ?_, exclusive⟩
    rw [creditsOf_eq richer, gain]
    constructor
    · intro restored
      exact .inl (by omega)
    · intro nothing
      rw [nothing.resolve_right both, Nat.add_zero]

def takeSite : Site :=
  .holding [{ uid := 1, username := "ann".toList, flags := ['O'] },
    { uid := 2, username := "bob".toList, ratio := 3, credits := 10 }] []

theorem takeSite_reachable : takeSite.Reachable :=
  ⟨plainWorld, takeSite, [], .of_array (by decide +kernel), rfl⟩

/-- No account of a site that the commands reach has both flags, so that nothing but a gift
of 0 is taken back there. -/
theorem take_undoes_give_nothing :
    ∃ given taken, doSiteGive plainWorld ⟨1, 1⟩ "bob 0".toList takeSite = some given ∧
      doSiteTake plainWorld ⟨1, 1⟩ "bob 0".toList given.site = some taken ∧
      taken.site.creditsOf 2 = takeSite.creditsOf 2 := by
  have text : CreditLine "bob 0".toList "bob".toList 0 := ⟨_, _, _, rfl, rfl, rfl⟩
  obtain ⟨given, taken, gave, took, restored, _⟩ := take_undoes_give_iff plainWorld takeSite ⟨1, 1⟩
    { uid := 1, username := "ann".toList, flags := ['O'] }
    { uid := 2, username := "bob".toList, ratio := 3, credits := 10 } "bob 0".toList "bob".toList 0
    (by decide) (.inl (by decide)) text (by decide) (by decide)
    (fun gadmin => absurd gadmin (by decide)) (by decide)
  exact ⟨given, taken, gave, took, restored.mpr (.inl rfl)⟩

/-- A site operator gives 5 credits and can not take them back. -/
theorem take_does_not_undo_give : takeSite.Reachable ∧
    ((doSiteGive plainWorld ⟨1, 1⟩ "bob 5".toList takeSite).bind fun given =>
      (doSiteTake plainWorld ⟨1, 1⟩ "bob 5".toList given.site).map fun taken =>
        (taken.replies, taken.site.creditsOf 2)) =
      some ([refuse "You are not authorized to use this command"], 15) ∧
    takeSite.creditsOf 2 = 10 :=
  ⟨takeSite_reachable, by decide, by decide⟩

end Wzdftpd
