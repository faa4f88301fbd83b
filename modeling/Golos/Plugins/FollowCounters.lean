import Mathlib.Data.Nat.Digits.Lemmas
import Golos.Plugins.Impl.Follow
import Golos.Lib.Transition

/-!
This module contains what the operations of the plugin `follow` change of the numbers of follow
objects with the blog bit and of the counters that are kept of them, and what the counters of an
account are worth in all runs.
-/

namespace Golos

open Checked

/-- The two ends of a follow object. -/
inductive FollowSide where
  | follower
  | following
  deriving DecidableEq

namespace FollowSide

def pick (side : FollowSide) (follower following : AccountName) : AccountName :=
  match side with
  | .follower => follower
  | .following => following

abbrev name (side : FollowSide) (f : FollowObject) : AccountName :=
  side.pick f.follower f.following

/-- The counter of the objects that an account is on this side of. -/
def count (side : FollowSide) (c : FollowCountObject) : UInt32 :=
  match side with
  | .follower => c.followingCount
  | .following => c.followerCount

end FollowSide

/-- A counter follows its number. -/
theorem ofNat_eq_bump {n n' : Nat} (was becomes : Bool)
    (h : n' + (if was = true then 1 else 0) = n + if becomes = true then 1 else 0) :
    UInt32.ofNat n' = FollowDatabase.bump was becomes (UInt32.ofNat n) := by
  have hadd := congrArg UInt32.ofNat h
  rw [UInt32.ofNat_add, UInt32.ofNat_add] at hadd
  unfold FollowDatabase.bump
  cases was with
  | false =>
    cases becomes with
    | false => simpa using hadd
    | true => simpa using hadd
  | true =>
    have h1 : UInt32.ofNat (if true = true then 1 else 0) = 1 := rfl
    rw [h1] at hadd
    have hsub : UInt32.ofNat n' = UInt32.ofNat n + UInt32.ofNat (if becomes = true then 1 else 0) - 1 := by
      rw [← hadd, UInt32.add_sub_cancel]
    rw [hsub]
    cases becomes with
    | false => simp
    | true =>
      simp only [if_true]
      rw [UInt32.sub_add_cancel]
      exact UInt32.add_sub_cancel _ _

namespace FollowDatabase

variable {W : Type} {db db' : FollowDatabase W}

/-- The number of follow objects with the blog bit that an account is on one side of. -/
def number (db : FollowDatabase W) (side : FollowSide) (name : AccountName) : Nat :=
  db.follows.rows.countP fun f => f.isBlog = true ∧ side.name f = name

/-- The counters of an account, none being as good as zeros. -/
def row (db : FollowDatabase W) (name : AccountName) : FollowCountObject :=
  (db.followCounts.find? name).getD { account := name }

def counter (db : FollowDatabase W) (side : FollowSide) (name : AccountName) : UInt32 :=
  side.count (db.row name)

/-- Every counter is the number that it counts, in 32 bits, and both ends have counters. -/
structure Tallied (db : FollowDatabase W) : Prop where
  counter : ∀ side name, db.counter side name = UInt32.ofNat (db.number side name)
  counted : ∀ f ∈ db.follows.rows, ∀ side : FollowSide,
    (db.followCounts.find? (side.name f)).isSome

/-- The rows of counters after `countFollow`: one of them is changed, or made. -/
theorem countFollow_eq_ok {account : AccountName}
    {f first : FollowCountObject → FollowCountObject} {hf : ∀ o, (f o).account = o.account}
    (hfirst : db.followCounts.find? account = none →
      first { account := account } = f { account := account })
    (h : db.countFollow account f first hf = .ok db') :
    db' = { db with followCounts := db'.followCounts } ∧
    ∀ name, db'.followCounts.find? name =
      if name = account then some (f (db.row account)) else db.followCounts.find? name := by
  unfold countFollow at h
  split at h
  . next hnone =>
    simp only [bind_eq_ok, pure_eq_ok, get_eq_ok] at h
    obtain ⟨counts, hemplace, rfl⟩ := h
    rw [hfirst hnone] at hemplace
    refine ⟨rfl, ?_⟩
    intro name
    obtain ⟨hfresh, rfl⟩ := Table.emplace_eq_some_iff.mp hemplace
    rw [Table.find?_insert]
    have hkey : (f { account := account }).account = account := hf _
    simp only [hkey, eq_comm (a := account)]
    simp [row, hnone]
  . next c hsome =>
    obtain rfl := Except.ok.inj h
    refine ⟨rfl, ?_⟩
    intro name
    simp only [Table.find?_modify]
    split
    . next heq => simp [heq, row, hsome]
    . rfl

/-- What `setFollow` writes, and the numbers after it. -/
theorem setFollow_eq_ok {o : FollowOperation} {what : UInt16} (h : db.setFollow o what = .ok db') :
    db' = { db with follows := db'.follows } ∧
    (∀ f ∈ db'.follows.rows, f ∈ db.follows.rows ∨
      (f.follower = o.follower ∧ f.following = o.following)) ∧
    ∀ side name, db'.number side name +
        (if (db.follows.find? (o.follower, o.following)).any FollowObject.isBlog = true ∧
          side.pick o.follower o.following = name then 1 else 0) =
      db.number side name +
        if (what &&& followBlog ≠ 0) ∧ side.pick o.follower o.following = name then 1 else 0 := by
  unfold setFollow at h
  split at h
  . next hnone =>
    simp only [bind_eq_ok, pure_eq_ok, get_eq_ok] at h
    obtain ⟨follows, hemplace, rfl⟩ := h
    have hins := Table.Inserts.emplace hemplace
    refine ⟨rfl, ?_, ?_⟩
    . intro f hf
      rcases (hins.mem f).mp hf with hf | rfl
      . exact .inl hf
      . exact .inr ⟨rfl, rfl⟩
    . intro side name
      have hcount := hins.countP fun f => f.isBlog = true ∧ side.name f = name
      simp only [number, hnone, Option.any_none, Bool.false_eq_true, false_and, if_false,
        Nat.add_zero]
      simpa [FollowObject.isBlog] using hcount
  . next f hsome =>
    obtain rfl := Except.ok.inj h
    have hkey : f.byFollowerFollowing = _ := Table.key_of_find? hsome
    obtain ⟨hfollower, hfollowing⟩ := Prod.mk.inj hkey
    have hup := Table.Updates.modify (fun f : FollowObject => { f with what := what }) hsome
    refine ⟨rfl, ?_, ?_⟩
    . intro g hg
      rcases (hup.mem_rows rfl).mp hg with ⟨hg, -⟩ | rfl
      . exact .inl hg
      . exact .inr ⟨hfollower, hfollowing⟩
    . intro side name
      have hcount := hup.countP fun f => f.isBlog = true ∧ side.name f = name
      simp only [number, hsome, Option.any_some]
      simpa [FollowObject.isBlog, FollowSide.name, hfollower, hfollowing] using hcount

/-- What the plugin takes off where a side stops to follow. -/
theorem unfollow_spec (db : FollowDatabase W) (follower following : AccountName) :
    (db.unfollow follower following).1 =
      { db with follows := (db.unfollow follower following).1.follows } ∧
    (∀ f ∈ (db.unfollow follower following).1.follows.rows, f ∈ db.follows.rows) ∧
    ((db.unfollow follower following).2 = true →
      ∃ f ∈ db.follows.rows, f.follower = follower ∧ f.following = following) ∧
    ∀ side name, (db.unfollow follower following).1.number side name +
        (if (db.unfollow follower following).2 = true ∧ side.pick follower following = name then 1
          else 0) = db.number side name := by
  unfold unfollow
  split
  . next f hsome =>
    have hkey : f.byFollowerFollowing = _ := Table.key_of_find? hsome
    obtain ⟨hfollower, hfollowing⟩ := Prod.mk.inj hkey
    have hmem := Table.mem_of_find? hsome
    split
    . next hblog =>
      refine ⟨rfl, ?_, ?_, ?_⟩
      . intro g hg
        exact (Table.mem_erase.mp hg).1
      . intro _
        exact ⟨f, hmem, hfollower, hfollowing⟩
      . intro side name
        have hcount := (Table.Removes.erase hmem).countP
          fun f => f.isBlog = true ∧ side.name f = name
        rw [hkey] at hcount
        simpa [number, hblog, FollowSide.name, hfollower, hfollowing, List.countP_cons] using hcount
    . exact ⟨rfl, fun g hg => hg, by simp, by simp⟩
  . exact ⟨rfl, fun g hg => hg, by simp, by simp⟩

theorem Tallied.of_rows {db' : FollowDatabase W} (h : db.Tallied)
    (hfollows : db'.follows = db.follows) (hcounts : db'.followCounts = db.followCounts) :
    db'.Tallied where
  counter := by
    intro side name
    have hcounter := h.counter side name
    unfold FollowDatabase.counter row number at hcounter ⊢
    rw [hfollows, hcounts]
    exact hcounter
  counted := by
    rw [hfollows, hcounts]
    exact h.counted

/-- A counter that is not there counts nothing. -/
theorem Tallied.not_following {o : FollowOperation} (h : db.Tallied) {side : FollowSide}
    (hnone : db.followCounts.find? (side.pick o.follower o.following) = none) :
    db.follows.find? (o.follower, o.following) = none := by
  rw [Table.find?_eq_none_iff]
  intro f hf hkey
  obtain ⟨hfollower, hfollowing⟩ := Prod.mk.inj hkey
  have hcounted := h.counted f hf side
  rw [FollowSide.name, hfollower, hfollowing, hnone] at hcounted
  cases hcounted

theorem Tallied.follow (h : db.Tallied) {o : FollowOperation} (hne : o.follower ≠ o.following)
    (hstep : db.follow o = .ok db') : db'.Tallied := by
  simp only [FollowDatabase.follow, bind_eq_ok] at hstep
  obtain ⟨-, -, -, -, -, -, db₁, hset, db₂, hfollower, hfollowing⟩ := hstep
  generalize hwas : (db.follows.find? (o.follower, o.following)).any FollowObject.isBlog = was at *
  obtain ⟨hdb₁, hmem, hnumber⟩ := setFollow_eq_ok hset
  rw [hwas] at hnumber
  have hcounts₁ : db₁.followCounts = db.followCounts := by rw [hdb₁]
  have hnone (side : FollowSide)
      (hfind : db.followCounts.find? (side.pick o.follower o.following) = none) : was = false := by
    rw [← hwas, h.not_following hfind, Option.any_none]
  obtain ⟨hdb₂, hfind₂⟩ := countFollow_eq_ok (by
    intro hfind
    rw [hcounts₁] at hfind
    rw [hnone .follower hfind]) hfollower
  obtain ⟨hdb₃, hfind₃⟩ := countFollow_eq_ok (by
    intro hfind
    rw [hfind₂, if_neg (Ne.symm hne), hcounts₁] at hfind
    rw [hnone .following hfind]) hfollowing
  have hfollows : db'.follows = db₁.follows := by rw [hdb₃, hdb₂]
  have hrow₁ : db₁.row = db.row := by
    funext name
    rw [row, row, hcounts₁]
  have hrow₂ : db₂.row o.following = db.row o.following := by
    rw [row, hfind₂, if_neg (Ne.symm hne), ← hrow₁, row]
  rw [hrow₁] at hfind₂
  rw [hrow₂] at hfind₃
  constructor
  . intro side name
    have hcounter := h.counter side name
    have hcount := hnumber side name
    have hnumber' : db'.number side name = db₁.number side name := by
      rw [number, hfollows, number]
    rw [hnumber']
    by_cases hhit : side.pick o.follower o.following = name
    . simp only [hhit, and_true] at hcount
      rw [ofNat_eq_bump was (followWhat o.what &&& followBlog ≠ 0)
        (by simpa using hcount), ← hcounter]
      subst hhit
      unfold FollowDatabase.counter
      cases side with
      | follower =>
        simp only [FollowSide.pick, row, hfind₃, hne, if_false, hfind₂, if_true, Option.getD_some,
          FollowSide.count]
      | following =>
        simp only [FollowSide.pick, row, hfind₃, if_true, Option.getD_some, FollowSide.count]
    . simp only [hhit, and_false, if_false, Nat.add_zero] at hcount
      rw [hcount, ← hcounter]
      unfold FollowDatabase.counter
      cases side with
      | follower =>
        have hother : name ≠ o.follower := fun heq => hhit heq.symm
        by_cases hname : name = o.following
        . simp only [row, hfind₃, hname, if_true, Option.getD_some, FollowSide.count]
        . simp only [row, hfind₃, hname, if_false, hfind₂, hother, hcounts₁]
      | following =>
        have hother : name ≠ o.following := fun heq => hhit heq.symm
        by_cases hname : name = o.follower
        . simp only [row, hfind₃, if_false, hfind₂, hname, if_true, Option.getD_some,
            FollowSide.count, hne]
        . simp only [row, hfind₃, hname, if_false, hfind₂, hother, hcounts₁]
  . rw [hfollows]
    intro f hf side
    rw [hfind₃, hfind₂, hcounts₁]
    rcases hmem f hf with hf | ⟨hfollower, hfollowing⟩
    . have hcounted := h.counted f hf side
      split
      . rfl
      . split
        . rfl
        . exact hcounted
    . cases side with
      | follower => simp [FollowSide.name, FollowSide.pick, hfollower, hne]
      | following => simp [FollowSide.name, FollowSide.pick, hfollowing]

/-- The row of an account after a change that leaves a row alone that is not there. -/
theorem getD_find?_modify {t : Table FollowCountObject.account} {account : AccountName}
    {f : FollowCountObject → FollowCountObject} {hf : ∀ o, (f o).account = o.account}
    (hnone : t.find? account = none → f { account := account } = { account := account })
    (name : AccountName) :
    ((t.modify account f hf).find? name).getD { account := name } =
      if name = account then f ((t.find? name).getD { account := name })
      else (t.find? name).getD { account := name } := by
  rw [Table.find?_modify]
  split
  . next heq =>
    cases hfind : t.find? name with
    | none =>
      rw [heq] at hfind ⊢
      exact (hnone hfind).symm
    | some c => rfl
  . rfl

theorem isSome_find?_modify {t : Table FollowCountObject.account} {account : AccountName}
    {f : FollowCountObject → FollowCountObject} {hf : ∀ o, (f o).account = o.account}
    (name : AccountName) : ((t.modify account f hf).find? name).isSome = (t.find? name).isSome := by
  rw [Table.find?_modify]
  split
  . rw [Option.isSome_map]
  . rfl

/-- One of two losses, of which not both can be. -/
theorem add_of_either {n₀ n₁ n₂ : Nat} {p q : Prop} [Decidable p] [Decidable q] (hpq : ¬(p ∧ q))
    (h₁ : n₁ + (if p then 1 else 0) = n₀) (h₂ : n₂ + (if q then 1 else 0) = n₁) :
    n₂ + (if decide (p ∨ q) = true then 1 else 0) = n₀ + if false = true then 1 else 0 := by
  by_cases hp : p
  . have hq : ¬q := fun hq => hpq ⟨hp, hq⟩
    simp only [hp, hq, if_true, if_false] at h₁ h₂
    simp [hp]
    omega
  . simp only [hp, if_false] at h₁
    simp only [hp, false_or, decide_eq_true_eq, Bool.false_eq_true, if_false]
    omega

theorem Tallied.onBlock (h : db.Tallied) {blocker account : AccountName} (hne : blocker ≠ account) :
    (db.onBlock blocker account).Tallied := by
  unfold FollowDatabase.onBlock
  obtain ⟨hdb₁, hmem₁, hwas₁, hnumber₁⟩ := unfollow_spec db account blocker
  generalize hu₁ : db.unfollow account blocker = u₁ at *
  obtain ⟨db₁, was₁⟩ := u₁
  obtain ⟨hdb₂, hmem₂, hwas₂, hnumber₂⟩ := unfollow_spec db₁ blocker account
  simp only at *
  generalize hu₂ : db₁.unfollow blocker account = u₂ at *
  obtain ⟨db₂, was₂⟩ := u₂
  simp only at *
  have hcounts : db₂.followCounts = db.followCounts := by rw [hdb₂, hdb₁]
  have hfollowed₁ (hwas : was₁ = true) (name : AccountName)
      (hname : name = account ∨ name = blocker) :
      (db.followCounts.find? name).isSome := by
    obtain ⟨f, hf, hfollower, hfollowing⟩ := hwas₁ hwas
    rcases hname with rfl | rfl
    . simpa [FollowSide.name, FollowSide.pick, hfollower] using h.counted f hf .follower
    . simpa [FollowSide.name, FollowSide.pick, hfollowing] using h.counted f hf .following
  have hfollowed₂ (hwas : was₂ = true) (name : AccountName) (hname : name = account ∨ name = blocker) :
      (db.followCounts.find? name).isSome := by
    obtain ⟨f, hf, hfollower, hfollowing⟩ := hwas₂ hwas
    rcases hname with rfl | rfl
    . simpa [FollowSide.name, FollowSide.pick, hfollowing] using h.counted f (hmem₁ f hf) .following
    . simpa [FollowSide.name, FollowSide.pick, hfollower] using h.counted f (hmem₁ f hf) .follower
  have hnone (name : AccountName) (hname : name = account ∨ name = blocker)
      (hfind : db.followCounts.find? name = none) : was₁ = false ∧ was₂ = false := by
    constructor
    . by_contra hwas
      simpa [hfind] using hfollowed₁ (by simpa using hwas) name hname
    . by_contra hwas
      simpa [hfind] using hfollowed₂ (by simpa using hwas) name hname
  rw [hcounts]
  constructor
  . intro side name
    have hcounter := h.counter side name
    have hcount₁ : db₁.number side name +
        (if was₁ = true ∧ side.pick account blocker = name then 1 else 0) =
        db.number side name := hnumber₁ side name
    have hcount₂ : db₂.number side name +
        (if was₂ = true ∧ side.pick blocker account = name then 1 else 0) =
        db₁.number side name := hnumber₂ side name
    -- on each side an account loses at most one of the two
    have hone : ¬((was₁ = true ∧ side.pick account blocker = name) ∧
        (was₂ = true ∧ side.pick blocker account = name)) := by
      rintro ⟨⟨-, h₁⟩, -, h₂⟩
      cases side with
      | follower => exact hne (h₂.trans h₁.symm)
      | following => exact hne (h₁.trans h₂.symm)
    have hstops := add_of_either hone hcount₁ hcount₂
    refine Eq.trans ?_ (ofNat_eq_bump _ _ hstops).symm
    rw [← hcounter]
    unfold FollowDatabase.counter row
    rw [getD_find?_modify, getD_find?_modify]
    . by_cases hblocker : name = blocker
      . have haccount : name ≠ account := fun heq => hne (hblocker.symm.trans heq)
        subst hblocker
        cases side with
        | follower => simp [FollowSide.pick, FollowSide.count, haccount, Ne.symm haccount]
        | following => simp [FollowSide.pick, FollowSide.count, haccount, Ne.symm haccount]
      . by_cases haccount : name = account
        . subst haccount
          cases side with
          | follower => simp [FollowSide.pick, FollowSide.count, hblocker, hne]
          | following => simp [FollowSide.pick, FollowSide.count, hblocker, hne]
        . have hpick₁ : side.pick account blocker ≠ name := by
            cases side with
            | follower => exact fun heq => haccount heq.symm
            | following => exact fun heq => hblocker heq.symm
          have hpick₂ : side.pick blocker account ≠ name := by
            cases side with
            | follower => exact fun heq => hblocker heq.symm
            | following => exact fun heq => haccount heq.symm
          simp [hblocker, haccount, hpick₁, hpick₂, bump]
    . intro hfind
      obtain ⟨h₁, h₂⟩ := hnone account (.inl rfl) hfind
      simp [h₁, h₂, bump]
    . intro hfind
      have hfind : db.followCounts.find? blocker = none := by
        rw [← Option.isNone_iff_eq_none, ← Option.not_isSome] at hfind ⊢
        rwa [isSome_find?_modify] at hfind
      obtain ⟨h₁, h₂⟩ := hnone blocker (.inr rfl) hfind
      simp [h₁, h₂, bump]
  . intro f hf side
    have hcounted := h.counted f (hmem₁ f (hmem₂ f hf)) side
    rw [isSome_find?_modify, isSome_find?_modify]
    exact hcounted

end FollowDatabase

namespace FollowDatabase

inductive Event where
  | follow (o : FollowOperation)
  | accountSetup (o : AccountSetupOperation)
  /-- All that changes neither follow objects nor counters. -/
  | other

variable {W : Type} {db db' : FollowDatabase W}

def Step (db : FollowDatabase W) : Event → FollowDatabase W → Prop
  | .follow o, db' => o.validate = .ok () ∧ db.follow o = .ok db'
  | .accountSetup o, db' => db.accountSetup o = .ok db'
  | .other, db' => db'.follows = db.follows ∧ db'.followCounts = db.followCounts

/-- The runs from no follow objects at all. -/
def following (W : Type) : TransitionSystem (FollowDatabase W) Event where
  initial db := db.follows = .empty ∧ db.followCounts = .empty
  step := Step

/-- An account that sets itself up blocks only others. -/
theorem ne_of_accountSetup {chain chain' : ChainDatabase W} {o : AccountSetupOperation}
    (h : chain.accountSetup o = .ok chain') {account : AccountName} {block : Bool}
    (hmem : .accountBlock account block ∈ o.settings) : o.account ≠ account := by
  simp only [ChainDatabase.accountSetup, bind_eq_ok] at h
  obtain ⟨-, -, -, -, h⟩ := h
  generalize o.settings = settings at h hmem
  induction settings generalizing chain with
  | nil => cases hmem
  | cons s settings ih =>
    rw [List.foldlM_cons, bind_eq_ok] at h
    obtain ⟨next, hs, hrest⟩ := h
    rcases List.mem_cons.mp hmem with rfl | hmem
    . simp only [ChainDatabase.applySetting, bind_eq_ok, ensure_eq_ok] at hs
      obtain ⟨-, hne, -⟩ := hs
      exact hne
    . exact ih hrest hmem

theorem Tallied.postAccountSetup (h : db.Tallied) {o : AccountSetupOperation}
    (hne : ∀ account block, .accountBlock account block ∈ o.settings → o.account ≠ account) :
    (db.postAccountSetup o).Tallied := by
  unfold FollowDatabase.postAccountSetup
  generalize o.settings = settings at hne
  induction settings generalizing db with
  | nil => exact h
  | cons s settings ih =>
    rw [List.foldl_cons]
    refine ih ?_ fun account block hmem => hne account block (List.mem_cons_of_mem _ hmem)
    cases s with
    | accountBlock account block =>
      simp only [onSetting]
      split
      . exact h.onBlock (hne account block List.mem_cons_self)
      . exact h
    | doNotBother _ => exact h

theorem Tallied.step (h : db.Tallied) {e : Event} (hstep : (following W).step db e db') :
    db'.Tallied := by
  cases e with
  | follow o =>
    obtain ⟨hvalid, hfollow⟩ := hstep
    exact h.follow ((ensure_eq_ok (u := ())).mp hvalid) hfollow
  | accountSetup o =>
    simp only [following, Step, FollowDatabase.accountSetup, bind_eq_ok, pure_eq_ok] at hstep
    obtain ⟨chain, hchain, rfl⟩ := hstep
    have hsame : ({ db with chain := chain } : FollowDatabase W).Tallied := h.of_rows rfl rfl
    exact hsame.postAccountSetup fun account block hmem => ne_of_accountSetup hchain hmem
  | other => exact h.of_rows hstep.1 hstep.2

theorem tallied_of_reachable (h : (following W).Reachable db) : db.Tallied := by
  apply h.invariant
  . rintro db ⟨hfollows, hcounts⟩
    constructor
    . intro side name
      cases side with
      | follower => simp [counter, row, number, hfollows, hcounts, FollowSide.count]
      | following => simp [counter, row, number, hfollows, hcounts, FollowSide.count]
    . rw [hfollows]
      intro f hf
      cases hf
  . intro db e db' hdb _ hstep
    exact hdb.step hstep

/-- In every run the counters of an account are the numbers of follow objects with the blog bit that
it is on either side of, in 32 bits, and there is at most one follow object for a pair. -/
theorem counters_eq_numbers (h : (following W).Reachable db) :
    (∀ side name, (db.counter side name).toNat = db.number side name % 2 ^ 32) ∧
    ∀ f ∈ db.follows.rows, ∀ g ∈ db.follows.rows, f.follower = g.follower →
      f.following = g.following → f = g := by
  constructor
  . intro side name
    rw [(tallied_of_reachable h).counter, UInt32.toNat_ofNat']
  . intro f hf g hg hfollower hfollowing
    exact db.follows.mem_rows_inj hf hg (Prod.ext hfollower hfollowing)

/-- Alice and Bob. -/
def twoAccounts : FollowDatabase Unit where
  chain :=
    { world := ()
      lastHardfork := 30
      ledger := { accounts := ⟨[{ name := "alice" }, { name := "bob" }], by decide⟩ } }

def bobFollows : FollowDatabase Unit :=
  (twoAccounts.follow ⟨"bob", "alice", ["blog"]⟩).toOption.getD twoAccounts

def aliceBlocks : FollowDatabase Unit :=
  (bobFollows.accountSetup ⟨"alice", [.accountBlock "bob" true]⟩).toOption.getD twoAccounts

/-- Bob follows Alice, and then she blocks him. -/
theorem counters_eq_numbers_blocked :
    bobFollows.number .following "alice" = 1 ∧ aliceBlocks.number .following "alice" = 0 ∧
    (∀ side name, (aliceBlocks.counter side name).toNat =
      aliceBlocks.number side name % 2 ^ 32) ∧
    ∀ f ∈ aliceBlocks.follows.rows, ∀ g ∈ aliceBlocks.follows.rows, f.follower = g.follower →
      f.following = g.following → f = g := by
  have hfollows : (following Unit).Reachable bobFollows :=
    .step (e := .follow ⟨"bob", "alice", ["blog"]⟩) (.initial (s := twoAccounts) ⟨rfl, rfl⟩) trivial
      ⟨ensure_eq_ok.mpr (by decide), eq_ok_of_isSome (by decide +kernel)⟩
  have hblocks : (following Unit).Reachable aliceBlocks :=
    .step (e := .accountSetup ⟨"alice", [.accountBlock "bob" true]⟩) hfollows trivial
      (eq_ok_of_isSome (by decide +kernel))
  exact ⟨by decide +kernel, by decide +kernel, counters_eq_numbers hblocks⟩

/-- A short name of letters for every number. -/
def fan (k : Nat) : AccountName :=
  String.ofList ('f' :: 'a' :: 'n' :: (Nat.digits 26 k).map fun d => Char.ofNat (97 + d))

theorem fan_injective : Function.Injective fan := by
  have hletter : ∀ d < 26, (Char.ofNat (97 + d)).toNat - 97 = d := by decide
  have hread (k : Nat) :
      Nat.ofDigits 26 (((fan k).toList.drop 3).map fun c => c.toNat - 97) = k := by
    simp only [fan, String.toList_ofList, List.drop_succ_cons, List.drop_zero, List.map_map]
    rw [List.map_congr_left (g := id), List.map_id, Nat.ofDigits_digits]
    intro d hd
    exact hletter d (Nat.digits_lt_base (by decide) hd)
  intro k k' h
  rw [← hread k, h, hread k']

theorem fan_ne_alice (k : Nat) : fan k ≠ "alice" := by
  intro h
  have hhead := congrArg (fun s : String => s.toList.head?) h
  simp only [fan, String.toList_ofList, List.head?_cons] at hhead
  revert hhead
  decide

theorem exists_countFollow (db : FollowDatabase W) (account : AccountName)
    (f first : FollowCountObject → FollowCountObject) (hf : ∀ o, (f o).account = o.account)
    (hfirst : (first { account := account }).account = account) :
    ∃ counts, db.countFollow account f first hf = .ok { db with followCounts := counts } := by
  unfold countFollow
  split
  . next hnone =>
    have hfresh : db.followCounts.find? (first { account := account }).account = none := by
      rw [hfirst, hnone]
    exact ⟨_, by rw [Table.emplace_eq_some_iff.mpr ⟨hfresh, rfl⟩]; rfl⟩
  . exact ⟨_, rfl⟩

/-- One more account follows alice. -/
theorem exists_follow {name : AccountName} (hhf : ¬db.chain.hasHardfork 27)
    (hfresh : db.follows.find? (name, "alice") = none) :
    ∃ db', db.follow ⟨name, "alice", ["blog"]⟩ = .ok db' ∧ db'.chain = db.chain ∧
      (∀ f ∈ db'.follows.rows, f ∈ db.follows.rows ∨ f.follower = name) ∧
      db'.number .following "alice" = db.number .following "alice" + 1 := by
  let o : FollowOperation := ⟨name, "alice", ["blog"]⟩
  have hwhat : followWhat ["blog"] &&& followBlog ≠ 0 := by decide
  have hblog : (followWhat ["blog"] &&& followBlog ≠ 0 : Bool) = true := decide_eq_true hwhat
  have hcheck : db.checkFollow o (followWhat ["blog"] &&& followBlog ≠ 0 : Bool) = .ok () := by
    rw [hblog]
    simp [checkFollow, ChainDatabase.isBlocking, hhf, ensure, pure, Except.pure, bind, Except.bind]
  obtain ⟨db₁, hset⟩ : ∃ db₁, db.setFollow o (followWhat o.what) = .ok db₁ := by
    unfold setFollow
    rw [hfresh]
    simp only
    rw [Table.emplace_eq_some_iff.mpr ⟨hfresh, rfl⟩]
    exact ⟨_, rfl⟩
  obtain ⟨counts, hfollower⟩ := exists_countFollow db₁ name
    (fun c => { c with followingCount := bump false true c.followingCount })
    (fun c => { c with followingCount := bump false true 0 }) (fun _ => rfl) rfl
  obtain ⟨counts', hfollowing⟩ := exists_countFollow { db₁ with followCounts := counts }
    "alice" (fun c => { c with followerCount := bump false true c.followerCount })
    (fun c => { c with followerCount := bump false true 0 }) (fun _ => rfl) rfl
  obtain ⟨hdb₁, hrows, hnumber⟩ := setFollow_eq_ok hset
  have hwas : (db.follows.find? (name, "alice")).any FollowObject.isBlog = false := by
    rw [hfresh, Option.any_none]
  refine ⟨{ db₁ with followCounts := counts' }, ?_, by rw [hdb₁], ?_, ?_⟩
  . simp only [FollowDatabase.follow, bind_eq_ok]
    refine ⟨(), ensure_eq_ok.mpr ?_, (), ensure_eq_ok.mpr ?_, (), hcheck, db₁, hset,
      { db₁ with followCounts := counts }, ?_, ?_⟩
    . intro hignored
      exact absurd rfl hignored
    . intro hignored
      exact absurd rfl hignored
    . simp only [hwas, hblog]
      exact hfollower
    . simp only [hwas, hblog]
      exact hfollowing
  . intro f hf
    exact (hrows f hf).imp_right And.left
  . have hmore := hnumber .following "alice"
    rw [hwas, if_neg (by simp), if_pos ⟨hwhat, rfl⟩] at hmore
    exact hmore

/-- A chain with so many fans, before the hardfork that knows blocking. -/
def fanClub (n : Nat) : ChainDatabase Unit where
  ledger :=
    { accounts :=
        { rows := { name := "alice" } :: (List.range n).map fun k => { name := fan k }
          nodup := by
            rw [List.map_cons, List.map_map, List.nodup_cons, List.mem_map]
            refine ⟨?_, List.nodup_range.map fan_injective⟩
            rintro ⟨k, -, hk⟩
            exact fan_ne_alice k hk } }
  world := ()

/-- Some of them follow alice. -/
theorem exists_fans (members n : Nat) :
    ∃ db : FollowDatabase Unit, (following Unit).Reachable db ∧ db.chain = fanClub members ∧
      (∀ f ∈ db.follows.rows, ∃ k < n, f.follower = fan k) ∧
      db.number .following "alice" = n := by
  induction n with
  | zero =>
    refine ⟨{ chain := fanClub members }, .initial ⟨rfl, rfl⟩, rfl, ?_, rfl⟩
    intro f hf
    cases hf
  | succ n ih =>
    obtain ⟨db, hreach, hclub, hfans, hnumber⟩ := ih
    have hhf : ¬db.chain.hasHardfork 27 := by
      rw [hclub]
      exact Nat.not_succ_le_zero 26
    have hfresh : db.follows.find? (fan n, "alice") = none := by
      rw [Table.find?_eq_none_iff]
      intro f hf hkey
      obtain ⟨k, hk, hname⟩ := hfans f hf
      have hsame : fan k = fan n := hname.symm.trans (congrArg Prod.fst hkey)
      have := fan_injective hsame
      omega
    obtain ⟨db', hfollow, hchain, hrows, hmore⟩ := exists_follow hhf hfresh
    refine ⟨db', .step (e := .follow ⟨fan n, "alice", ["blog"]⟩) hreach trivial
      ⟨ensure_eq_ok.mpr (fan_ne_alice n), hfollow⟩, by rw [hchain, hclub], ?_, by rw [hmore, hnumber]⟩
    intro f hf
    rcases hrows f hf with hf | hname
    . obtain ⟨k, hk, hname⟩ := hfans f hf
      exact ⟨k, by omega, hname⟩
    . exact ⟨n, by omega, hname⟩

/-- The counter of an account that 2 ^ 32 accounts follow stands at zero. -/
theorem counter_wraps :
    ∃ db : FollowDatabase Unit, (following Unit).Reachable db ∧
      (∀ f ∈ db.follows.rows, ∃ a ∈ db.chain.ledger.accounts.rows, a.name = f.follower) ∧
      db.number .following "alice" = 2 ^ 32 ∧ db.counter .following "alice" = 0 := by
  obtain ⟨db, hreach, hclub, hfans, hnumber⟩ := exists_fans (2 ^ 32) (2 ^ 32)
  refine ⟨db, hreach, ?_, hnumber, ?_⟩
  . intro f hf
    obtain ⟨k, hk, hname⟩ := hfans f hf
    rw [hclub]
    refine ⟨{ name := fan k }, List.mem_cons_of_mem _ ?_, hname.symm⟩
    exact List.mem_map.mpr ⟨k, List.mem_range.mpr hk, rfl⟩
  . rw [(tallied_of_reachable hreach).counter, hnumber]
    rfl

end FollowDatabase

end Golos
