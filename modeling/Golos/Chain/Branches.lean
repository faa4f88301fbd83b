import Mathlib.Data.List.Chain
import Golos.Chain.Impl.ForkDatabase
import Golos.Lib.Transition

/-!
This module contains the fork databases that a node can get to, the paths from a block to the ones
it builds on, and the branches that lead from two blocks to the last one that both build on.
-/

namespace Golos

open Checked

namespace ForkItem

/-- The item and all that `prev` leads to, whether they are alive or not. -/
def path : ForkItem → List ForkItem
  | root ptr data => [root ptr data]
  | child ptr data prev => child ptr data prev :: prev.path

/-- Every item was linked to the one whose id its block names. -/
def Linked {σ : Type} (p : Protocol σ) : ForkItem → Prop
  | root _ _ => True
  | child _ data prev => p.itemId prev = data.previous ∧ prev.Linked p

variable {σ : Type} {p : Protocol σ} {item x : ForkItem}

theorem num_eq : item.num = item.previousId.num + 1 := rfl

theorem itemId_num : (p.itemId item).num = item.num := rfl

theorem Linked.num_prev {ptr : Nat} {data : SignedBlock} {prev : ForkItem}
    (h : (child ptr data prev).Linked p) : (child ptr data prev).num = prev.num + 1 := by
  rw [num_eq, ← @itemId_num _ p prev, h.1]
  rfl

/-- Only the item itself is as high as it is. -/
theorem Linked.num_lt_of_mem_path (h : item.Linked p) (hx : x ∈ item.path) :
    x = item ∨ x.num < item.num := by
  induction item with
  | root ptr data => exact .inl (List.mem_singleton.mp hx)
  | child ptr data prev ih =>
    rcases List.mem_cons.mp hx with heq | hx
    . exact .inl heq
    . right
      have hnum := h.num_prev
      rcases ih h.2 hx with rfl | hlt <;> omega

theorem Linked.num_le_of_mem_path (h : item.Linked p) (hx : x ∈ item.path) : x.num ≤ item.num := by
  rcases h.num_lt_of_mem_path hx with rfl | hlt
  . exact Nat.le_refl _
  . exact hlt.le

theorem Linked.path_pairwise (h : item.Linked p) : item.path.Pairwise fun x y => y.num < x.num := by
  induction item with
  | root ptr data => exact List.pairwise_singleton _ _
  | child ptr data prev ih =>
    refine List.pairwise_cons.mpr ⟨?_, ih h.2⟩
    intro x hx
    have hprev := h.num_prev
    have hle := h.2.num_le_of_mem_path hx
    omega

/-- What is below the item was linked to from its path. -/
theorem Linked.exists_next (h : item.Linked p) (hx : x ∈ item.path) (hne : x ≠ item) :
    ∃ y ∈ item.path, y.previousId = p.itemId x := by
  induction item with
  | root ptr data => exact absurd (List.mem_singleton.mp hx) hne
  | child ptr data prev ih =>
    rcases List.mem_cons.mp hx with heq | hx
    . exact absurd heq hne
    . by_cases hprev : x = prev
      . exact ⟨_, List.mem_cons_self, hprev ▸ h.1.symm⟩
      . obtain ⟨y, hy, hid⟩ := ih h.2 hx hprev
        exact ⟨y, List.mem_cons_of_mem _ hy, hid⟩

end ForkItem

namespace ForkDatabase

variable {σ : Type} {p : Protocol σ} {f : ForkDatabase} {item x : ForkItem}

/-- The item and all that `prev` leads to as long as they are alive. -/
def livePath (f : ForkDatabase) : ForkItem → List ForkItem
  | .root ptr data => [.root ptr data]
  | .child ptr data prev =>
    .child ptr data prev :: if f.lock (some prev) = some prev then f.livePath prev else []

theorem livePath_isPrefix : f.livePath item <+: item.path := by
  induction item with
  | root ptr data => exact List.prefix_refl _
  | child ptr data prev ih =>
    unfold livePath ForkItem.path
    rw [List.prefix_cons_inj]
    split
    . exact ih
    . exact List.nil_prefix

theorem livePath_head? : (f.livePath item).head? = some item := by
  cases item <;> rfl

/-- Each item of the path has a live link to the next one. -/
theorem livePath_isChain : (f.livePath item).IsChain fun x y => f.lock x.prev = some y := by
  induction item with
  | root ptr data => exact List.isChain_singleton _
  | child ptr data prev ih =>
    unfold livePath
    split
    . next hlock =>
      rw [List.isChain_cons]
      refine ⟨?_, ih⟩
      intro y hy
      rw [livePath_head?] at hy
      injection hy with hy
      exact hy ▸ hlock
    . exact List.isChain_singleton _

/-- Below an item of the path there is the rest of it. -/
theorem livePath_of_mem {ptr : Nat} {data : SignedBlock} {prev : ForkItem}
    (hx : x ∈ f.livePath (.child ptr data prev)) (hne : x ≠ .child ptr data prev) :
    f.lock (some prev) = some prev ∧ x ∈ f.livePath prev ∧
      f.livePath (.child ptr data prev) = .child ptr data prev :: f.livePath prev := by
  unfold livePath at hx
  rcases List.mem_cons.mp hx with heq | hx
  . exact absurd heq hne
  . split at hx
    . next hlock =>
      refine ⟨hlock, hx, ?_⟩
      conv => lhs; unfold livePath
      rw [if_pos hlock]
    . cases hx

/-- Going down to a number that the path gets to. -/
theorem descend_eq_ok {num : Nat} (h : item.Linked p) (hx : x ∈ f.livePath item)
    (hnum : x.num ≤ num) :
    ∃ branch last, f.descend num item = .ok (branch, last) ∧ last.Linked p ∧
      last.num = min item.num num ∧ (∀ y ∈ branch, num < y.num) ∧
        branch ++ last.path = item.path ∧ branch ++ f.livePath last = f.livePath item ∧
          x ∈ f.livePath last := by
  induction item with
  | root ptr data =>
    have hroot : x = .root ptr data := List.mem_singleton.mp hx
    rw [hroot] at hnum
    refine ⟨[], .root ptr data, ?_, h, by omega, List.forall_mem_nil _, rfl, rfl, hx⟩
    unfold descend
    rw [if_neg (by omega)]
    rfl
  | child ptr data prev ih =>
    have hprev := h.num_prev
    by_cases hlt : (ForkItem.child ptr data prev).num > num
    . have hne : x ≠ .child ptr data prev := by
        rintro rfl
        omega
      obtain ⟨hlock, hx, hlive⟩ := livePath_of_mem hx hne
      obtain ⟨branch, last, hdescend, hlinked, hmin, habove, hpath, hrest, hmem⟩ := ih h.2 hx
      refine ⟨.child ptr data prev :: branch, last, ?_, hlinked, by omega, ?_, ?_, ?_, hmem⟩
      . unfold descend
        dsimp only
        rw [if_pos hlt, if_pos hlock, hdescend]
        rfl
      . rw [List.forall_mem_cons]
        exact ⟨hlt, habove⟩
      . rw [List.cons_append, hpath]
        rfl
      . rw [List.cons_append, hrest, hlive]
    . refine ⟨[], .child ptr data prev, ?_, h, by omega, List.forall_mem_nil _, rfl, rfl, hx⟩
      unfold descend
      rw [if_neg hlt]
      rfl

/-- Two paths that are as long build on one block at the same height. -/
theorem num_eq_of_previousId {y : ForkItem} (h : x.previousId = y.previousId) : x.num = y.num := by
  rw [ForkItem.num_eq, ForkItem.num_eq, h]

/-- Items that build on one block are branches of their own. -/
theorem meet_self {first second : ForkItem} (hfirst : first.Linked p)
    (hmeet : first.previousId = second.previousId) :
    ∃ firstBranch secondBranch u v,
      f.meet first second = .ok (firstBranch ++ [u], secondBranch ++ [v]) ∧
        firstBranch ++ [u] <+: f.livePath first ∧ secondBranch ++ [v] <+: f.livePath second ∧
          u.previousId = v.previousId ∧
            ∀ x ∈ first.path, ∀ y ∈ second.path, x.previousId = y.previousId → x.num ≤ u.num := by
  refine ⟨[], [], first, second, ?_, ?_, ?_, hmeet, ?_⟩
  . unfold meet
    rw [if_neg (not_not.mpr hmeet)]
    rfl
  . exact List.prefix_iff_eq_take.mpr (by cases first <;> rfl)
  . exact List.prefix_iff_eq_take.mpr (by cases second <;> rfl)
  . intro x hx _ _ _
    exact hfirst.num_le_of_mem_path hx

/-- Where two items build on different blocks, only the rest of their paths can meet. -/
theorem ne_of_previousId {first second y : ForkItem} (hfirst : first.Linked p)
    (hsecond : second.Linked p) (hnum : first.num = second.num)
    (hne : first.previousId ≠ second.previousId) (hx : x ∈ first.path) (hy : y ∈ second.path)
    (hxy : x.previousId = y.previousId) : x ≠ first ∧ y ≠ second := by
  have hxy_num := num_eq_of_previousId hxy
  rcases hfirst.num_lt_of_mem_path hx with rfl | hxlt
  . rcases hsecond.num_lt_of_mem_path hy with rfl | hylt
    . exact absurd hxy hne
    . omega
  . rcases hsecond.num_lt_of_mem_path hy with rfl | hylt
    . omega
    . constructor
      . rintro rfl
        exact Nat.lt_irrefl _ hxlt
      . rintro rfl
        exact Nat.lt_irrefl _ hylt

/-- The branches down to the highest items of two paths that build on one block. -/
theorem meet_eq_ok {first second y : ForkItem} (hfirst : first.Linked p) (hsecond : second.Linked p)
    (hnum : first.num = second.num) (hx : x ∈ f.livePath first) (hy : y ∈ f.livePath second)
    (hxy : x.previousId = y.previousId) :
    ∃ firstBranch secondBranch u v,
      f.meet first second = .ok (firstBranch ++ [u], secondBranch ++ [v]) ∧
        firstBranch ++ [u] <+: f.livePath first ∧ secondBranch ++ [v] <+: f.livePath second ∧
          u.previousId = v.previousId ∧
            ∀ x ∈ first.path, ∀ y ∈ second.path, x.previousId = y.previousId → x.num ≤ u.num := by
  induction first generalizing second with
  | root ptr data =>
    have hmeet : (ForkItem.root ptr data).previousId = second.previousId := by
      by_contra hne
      obtain ⟨hroot, -⟩ := ne_of_previousId hfirst hsecond hnum hne (livePath_isPrefix.mem hx)
        (livePath_isPrefix.mem hy) hxy
      exact hroot (List.mem_singleton.mp hx)
    exact meet_self hfirst hmeet
  | child ptr data prev ih =>
    by_cases hmeet : (ForkItem.child ptr data prev).previousId = second.previousId
    . exact meet_self hfirst hmeet
    . obtain ⟨hxne, hyne⟩ := ne_of_previousId hfirst hsecond hnum hmeet (livePath_isPrefix.mem hx)
        (livePath_isPrefix.mem hy) hxy
      cases second with
      | root ptr' data' => exact absurd (List.mem_singleton.mp hy) hyne
      | child ptr' data' prev' =>
        obtain ⟨hlock, hx, hlive⟩ := livePath_of_mem hx hxne
        obtain ⟨hlock', hy, hlive'⟩ := livePath_of_mem hy hyne
        have hprev : prev.num = prev'.num := by
          have := hfirst.num_prev
          have := hsecond.num_prev
          omega
        obtain ⟨firstBranch, secondBranch, u, v, hmeet_prev, hfirst_prefix, hsecond_prefix, huv,
          hhighest⟩ := ih hfirst.2 hsecond.2 hprev hx hy
        refine ⟨.child ptr data prev :: firstBranch, .child ptr' data' prev' :: secondBranch, u, v,
          ?_, ?_, ?_, huv, ?_⟩
        . unfold meet
          dsimp only
          rw [if_pos hmeet, if_pos ⟨hlock, hlock'⟩, hmeet_prev]
          rfl
        . rw [hlive, List.cons_append, List.prefix_cons_inj]
          exact hfirst_prefix
        . rw [hlive', List.cons_append, List.prefix_cons_inj]
          exact hsecond_prefix
        . intro x hx y hy hxy
          obtain ⟨hxne, hyne⟩ := ne_of_previousId hfirst hsecond hnum hmeet hx hy hxy
          exact hhighest x (List.mem_of_ne_of_mem hxne hx) y (List.mem_of_ne_of_mem hyne hy) hxy

end ForkDatabase

open Checked TransitionSystem

inductive ForkEvent where
  | reset
  | startBlock (b : SignedBlock)
  | pushBlock (b : SignedBlock)
  | popBlock
  | setMaxSize (s : Nat)
  | setHead (item : ForkItem)
  | remove (id : BlockId)
  /-- Variables of running functions come to point to some items, and no longer to others. -/
  | hold (items : List ForkItem)

namespace ForkDatabase

variable {σ : Type} (p : Protocol σ)

/-- Somebody points to the item. -/
def Alive (f : ForkDatabase) (item : ForkItem) : Prop :=
  item ∈ f.index ∨ f.head = some item ∨ item ∈ f.held

inductive Step : ForkDatabase → ForkEvent → ForkDatabase → Prop
  | reset {f : ForkDatabase} : Step f .reset f.reset
  | startBlock {f : ForkDatabase} {b : SignedBlock} : Step f (.startBlock b) (f.startBlock p b)
  | pushBlock {f f' : ForkDatabase} {b : SignedBlock} (h : f.pushBlock' p b = .ok f') :
    Step f (.pushBlock b) f'
  | popBlock {f f' : ForkDatabase} (h : f.popBlock = .ok f') : Step f .popBlock f'
  | setMaxSize {f : ForkDatabase} {s : Nat} : Step f (.setMaxSize s) (f.setMaxSize s)
  | setHead {f : ForkDatabase} {item : ForkItem} (h : f.Alive item) :
    Step f (.setHead item) (f.setHead item)
  | remove {f : ForkDatabase} {id : BlockId} : Step f (.remove id) (f.remove p id)
  | hold {f : ForkDatabase} {items : List ForkItem} (h : ∀ item ∈ items, f.Alive item) :
    Step f (.hold items) { f with held := items }

/-- All that a fork database goes through. -/
def system : TransitionSystem ForkDatabase ForkEvent where
  initial f := f = {}
  step := Step p

/-- The items were linked when they were pushed. -/
def Linked (f : ForkDatabase) : Prop :=
  ∀ item, f.Alive item → item.Linked p

variable {p} {f f' : ForkDatabase} {item x y : ForkItem}

theorem mem_of_find {id : BlockId} (h : f.find p id = some item) :
    item ∈ f.index ∧ p.itemId item = id :=
  ⟨List.mem_of_find?_eq_some h, by simpa using List.find?_some h⟩

theorem alive_of_lock {prev : Option ForkItem} (h : f.lock prev = some item) :
    prev = some item ∧ f.Alive item := by
  unfold lock at h
  rw [Option.filter_eq_some_iff, decide_eq_true_iff] at h
  exact h

theorem insert_alive (h : (f.insert p item).Alive x) : x = item ∨ f.Alive x := by
  unfold insert at h
  split at h
  . exact .inr h
  . rcases h with hindex | hrest
    . rcases List.mem_cons.mp hindex with rfl | hindex
      . exact .inl rfl
      . exact .inr (.inl hindex)
    . exact .inr (.inr hrest)

theorem raiseHead_alive (h : (f.raiseHead item).Alive x) : x = item ∨ f.Alive x := by
  have of_head : Alive { f with head := some item } x → x = item ∨ f.Alive x := by
    rintro (hindex | hhead | hheld)
    . exact .inr (.inl hindex)
    . injection hhead with hhead
      exact .inl hhead.symm
    . exact .inr (.inr (.inr hheld))
  unfold raiseHead at h
  split at h
  . split at h
    . exact of_head h
    . exact .inr h
  . exact of_head h

theorem link_linked {b : SignedBlock} (h : f.Linked p) (hlink : f.link p b = .ok item) :
    item.Linked p := by
  unfold link at hlink
  split at hlink
  . simp only [bind_eq_ok, get_eq_ok, pure_eq_ok] at hlink
    obtain ⟨prev, hfind, rfl⟩ := hlink
    obtain ⟨hmem, hid⟩ := mem_of_find hfind
    exact ⟨hid, h prev (.inl hmem)⟩
  . rw [pure_eq_ok] at hlink
    rw [← hlink]
    trivial

theorem linked_step {e : ForkEvent} (h : f.Linked p) (hstep : f.Step p e f') : f'.Linked p := by
  intro x hx
  cases hstep with
  | reset =>
    rcases hx with hindex | hhead | hheld
    . cases hindex
    . cases hhead
    . exact h x (.inr (.inr hheld))
  | startBlock =>
    rcases hx with hindex | hhead | hheld
    . rcases insert_alive (.inl hindex) with rfl | halive
      . trivial
      . exact h x halive
    . injection hhead with hhead
      rw [← hhead]
      trivial
    . rcases insert_alive (.inr (.inr hheld)) with rfl | halive
      . trivial
      . exact h x halive
  | pushBlock hpush =>
    simp only [pushBlock', bind_eq_ok, ensure_eq_ok, pure_eq_ok] at hpush
    obtain ⟨-, -, item, hlink, rfl⟩ := hpush
    have hitem := link_linked h hlink
    rcases raiseHead_alive hx with rfl | halive
    . exact hitem
    . rcases insert_alive halive with rfl | halive
      . exact hitem
      . exact h x halive
  | popBlock hpop =>
    simp only [popBlock, bind_eq_ok, get_eq_ok, pure_eq_ok] at hpop
    obtain ⟨head, -, prev, hlock, rfl⟩ := hpop
    rcases hx with hindex | hhead | hheld
    . exact h x (.inl hindex)
    . injection hhead with hhead
      exact hhead ▸ h prev (alive_of_lock hlock).2
    . exact h x (.inr (.inr hheld))
  | setMaxSize =>
    apply h x
    unfold setMaxSize at hx
    split at hx
    . exact hx
    . rcases hx with hindex | hrest
      . exact .inl (List.mem_of_mem_filter hindex)
      . exact .inr hrest
  | setHead halive =>
    rcases hx with hindex | hhead | hheld
    . exact h x (.inl hindex)
    . injection hhead with hhead
      exact hhead ▸ h _ halive
    . exact h x (.inr (.inr hheld))
  | remove =>
    rcases hx with hindex | hrest
    . exact h x (.inl (List.mem_of_mem_filter hindex))
    . exact h x (.inr hrest)
  | hold hitems =>
    rcases hx with hindex | hhead | hheld
    . exact h x (.inl hindex)
    . exact h x (.inr (.inl hhead))
    . exact h x (hitems x hheld)

theorem linked_of_reach (h : (system p).Reachable f) : f.Linked p := by
  apply h.invariant
  . rintro _ rfl x (hindex | hhead | hheld)
    . cases hindex
    . cases hhead
    . cases hheld
  . intro f e f' hlinked _ hstep
    exact linked_step hlinked hstep

/-- The block of the id is an ancestor of the item's block. -/
def BuildsOn (item : ForkItem) (id : BlockId) : Prop :=
  ∃ x ∈ item.path, x.previousId = id

/-- Branches that lead from two items to their last common ancestor. -/
structure Branches (p : Protocol σ) (f : ForkDatabase) (x y : ForkItem)
    (first second : List ForkItem) : Prop where
  head : first.head? = some x ∧ second.head? = some y
  firstLinks : first.IsChain fun x y => f.lock x.prev = some y
  secondLinks : second.IsChain fun x y => f.lock x.prev = some y
  disjoint : ∀ x ∈ first, ∀ y ∈ second, p.itemId x ≠ p.itemId y
  ancestor : ∃ id, first.getLast?.map ForkItem.previousId = some id ∧
    second.getLast?.map ForkItem.previousId = some id ∧ BuildsOn x id ∧ BuildsOn y id ∧
      ∀ id', BuildsOn x id' → BuildsOn y id' → id'.num ≤ id.num

theorem isChain_of_isPrefix {l : List ForkItem} (h : l <+: f.livePath x) :
    l.IsChain fun x y => f.lock x.prev = some y := by
  obtain ⟨rest, hrest⟩ := h
  have hchain := @livePath_isChain f x
  rw [← hrest] at hchain
  exact hchain.left_of_append

theorem head?_of_isPrefix {l : List ForkItem} (hne : l ≠ []) (h : l <+: f.livePath x) :
    l.head? = some x := by
  obtain ⟨rest, hrest⟩ := h
  rw [← @livePath_head? f x, ← hrest, List.head?_append_of_ne_nil _ hne]

/-- Parts of two paths above the last block that both build on have no block in common. -/
theorem ne_of_path {u : ForkItem} (hx : x.Linked p) (hy : y.Linked p)
    (hne : p.itemId x ≠ p.itemId y) (hxy : ¬BuildsOn x (p.itemId y)) (hyx : ¬BuildsOn y (p.itemId x))
    (hhighest : ∀ i ∈ x.path, ∀ j ∈ y.path, i.previousId = j.previousId → i.num ≤ u.num)
    {i j : ForkItem} (hi : i ∈ x.path) (hj : j ∈ y.path) (hu : u.num ≤ i.num) :
    p.itemId i ≠ p.itemId j := by
  intro hid
  by_cases hix : i = x
  . by_cases hjy : j = y
    . exact hne (hix ▸ hjy ▸ hid)
    . obtain ⟨j', hj', hprevious⟩ := hy.exists_next hj hjy
      exact hyx ⟨j', hj', hprevious.trans (hid.symm.trans (by rw [hix]))⟩
  . obtain ⟨i', hi', hprevious⟩ := hx.exists_next hi hix
    by_cases hjy : j = y
    . exact hxy ⟨i', hi', hprevious.trans (hid.trans (by rw [hjy]))⟩
    . obtain ⟨j', hj', hprevious'⟩ := hy.exists_next hj hjy
      have hle := hhighest i' hi' j' hj' (hprevious.trans (hid.trans hprevious'.symm))
      rw [ForkItem.num_eq, hprevious, ForkItem.itemId_num] at hle
      omega

/-- The last of a part of a path is the lowest. -/
theorem num_of_isPrefix {l : List ForkItem} {u : ForkItem} (hx : x.Linked p)
    (h : l ++ [u] <+: f.livePath x) : ∀ i ∈ l ++ [u], u.num ≤ i.num := by
  have hpairwise := hx.path_pairwise.sublist (h.trans livePath_isPrefix).sublist
  rw [List.pairwise_append] at hpairwise
  intro i hi
  rcases List.mem_append.mp hi with hi | hi
  . exact (hpairwise.2.2 i hi u (List.mem_singleton_self u)).le
  . rw [List.mem_singleton.mp hi]

/-- The upper parts that were left out do not build on a common block. -/
theorem mem_path_of_le {upper : List ForkItem} {last i : ForkItem} {num : Nat}
    (hpath : upper ++ last.path = x.path) (habove : ∀ j ∈ upper, num < j.num) (hi : i ∈ x.path)
    (hle : i.num ≤ num) : i ∈ last.path := by
  rw [← hpath] at hi
  rcases List.mem_append.mp hi with hi | hi
  . exact absurd (habove i hi) (Nat.not_lt.mpr hle)
  . exact hi

theorem fetchBranchFrom_eq_ok {a b : BlockId} {u v : ForkItem} (hlinked : f.Linked p)
    (ha : f.fetchBlock p a = some x) (hb : f.fetchBlock p b = some y) (hab : a ≠ b)
    (hxy : ¬BuildsOn x b) (hyx : ¬BuildsOn y a) (hu : u ∈ f.livePath x) (hv : v ∈ f.livePath y)
    (huv : u.previousId = v.previousId) :
    ∃ first second, f.fetchBranchFrom p a b = .ok (first, second) ∧
      Branches p f x y first second := by
  obtain ⟨hxmem, hxid⟩ := mem_of_find ha
  obtain ⟨hymem, hyid⟩ := mem_of_find hb
  have hx := hlinked x (.inl hxmem)
  have hy := hlinked y (.inl hymem)
  have hunum := num_eq_of_previousId huv
  have hule := hx.num_le_of_mem_path (livePath_isPrefix.mem hu)
  have hvle := hy.num_le_of_mem_path (livePath_isPrefix.mem hv)
  obtain ⟨firstUpper, x', hfirst, hx', hxnum, hxabove, hxpath, hxlive, hu'⟩ :=
    descend_eq_ok hx hu (by omega : u.num ≤ y.num)
  obtain ⟨secondUpper, y', hsecond, hy', hynum, hyabove, hypath, hylive, hv'⟩ :=
    descend_eq_ok hy hv (by omega : v.num ≤ x'.num)
  obtain ⟨firstLower, secondLower, s, t, hmeet, hfirstPrefix, hsecondPrefix, hst, hhighest⟩ :=
    meet_eq_ok hx' hy' (by omega) hu' hv' huv
  have hfirstPrefix : firstUpper ++ firstLower ++ [s] <+: f.livePath x := by
    rw [List.append_assoc, ← hxlive, List.prefix_append_right_inj]
    exact hfirstPrefix
  have hsecondPrefix : secondUpper ++ secondLower ++ [t] <+: f.livePath y := by
    rw [List.append_assoc, ← hylive, List.prefix_append_right_inj]
    exact hsecondPrefix
  have hhighest : ∀ i ∈ x.path, ∀ j ∈ y.path, i.previousId = j.previousId → i.num ≤ s.num := by
    intro i hi j hj hij
    have hnum := num_eq_of_previousId hij
    have hile := hx.num_le_of_mem_path hi
    have hjle := hy.num_le_of_mem_path hj
    exact hhighest i (mem_path_of_le hxpath hxabove hi (by omega)) j
      (mem_path_of_le hypath hyabove hj (by omega)) hij
  have hs : s ∈ x.path := (hfirstPrefix.trans livePath_isPrefix).mem List.mem_concat_self
  have ht : t ∈ y.path := (hsecondPrefix.trans livePath_isPrefix).mem List.mem_concat_self
  refine ⟨firstUpper ++ (firstLower ++ [s]), secondUpper ++ (secondLower ++ [t]), ?_, ?_⟩
  . unfold fetchBranchFrom
    unfold fetchBlock at ha hb
    rw [ha, hb, get_eq_ok.mpr rfl, get_eq_ok.mpr rfl, ok_bind, ok_bind, hfirst, ok_bind]
    dsimp only
    rw [hsecond, ok_bind]
    dsimp only
    rw [hmeet]
    rfl
  . rw [← List.append_assoc, ← List.append_assoc]
    constructor
    . exact ⟨head?_of_isPrefix (List.concat_ne_nil _ _) hfirstPrefix,
        head?_of_isPrefix (List.concat_ne_nil _ _) hsecondPrefix⟩
    . exact isChain_of_isPrefix hfirstPrefix
    . exact isChain_of_isPrefix hsecondPrefix
    . intro i hi j hj
      apply ne_of_path hx hy (hxid ▸ hyid ▸ hab) (hyid ▸ hxy) (hxid ▸ hyx) hhighest
      . exact (hfirstPrefix.trans livePath_isPrefix).mem hi
      . exact (hsecondPrefix.trans livePath_isPrefix).mem hj
      . exact num_of_isPrefix hx hfirstPrefix i hi
    . refine ⟨s.previousId, ?_, ?_, ⟨s, hs, rfl⟩, ⟨t, ht, hst.symm⟩, ?_⟩
      . rw [List.getLast?_concat]
        rfl
      . rw [List.getLast?_concat, Option.map_some, hst]
      . rintro id ⟨i, hi, rfl⟩ ⟨j, hj, hij⟩
        have hle := hhighest i hi j hj hij.symm
        rw [ForkItem.num_eq, ForkItem.num_eq] at hle
        omega

/--
From two blocks of any fork database, neither of which builds on the other, the branches lead to the
last block that both build on, as long as the links to what builds on one block are alive.
-/
theorem fetchBranchFrom_of_reach {a b : BlockId} {u v : ForkItem} (h : (system p).Reachable f)
    (ha : f.fetchBlock p a = some x) (hb : f.fetchBlock p b = some y) (hab : a ≠ b)
    (hxy : ¬BuildsOn x b) (hyx : ¬BuildsOn y a) (hu : u ∈ f.livePath x) (hv : v ∈ f.livePath y)
    (huv : u.previousId = v.previousId) :
    ∃ first second, f.fetchBranchFrom p a b = .ok (first, second) ∧
      Branches p f x y first second :=
  fetchBranchFrom_eq_ok (linked_of_reach h) ha hb hab hxy hyx hu hv huv

section fork

/-- Ids are the times of the blocks. -/
def timeProtocol : Protocol Unit where
  transactionId _ := 0
  blockHash b := b.timestamp
  merkleRoot _ := 0
  publicKey _ := 0
  sign _ _ := 0
  signee _ := 0
  validate _ := .ok ()
  verifyAuthority _ _ := .ok ()
  applyOperations s _ := .ok s.shared
  endOfBlock s _ := .ok s.shared

def blockAt (previous : BlockId) (timestamp : Nat) : SignedBlock where
  previous := previous
  timestamp := timestamp
  witness := "alice"

def firstItem : ForkItem :=
  .root 0 (blockAt {} 3)

/-- On the first block there is one at 6, and two more at 9 and 12. -/
def itemAt (ptr timestamp : Nat) (prev : ForkItem) : ForkItem :=
  .child ptr (blockAt (timeProtocol.itemId prev) timestamp) prev

def upperItem : ForkItem :=
  itemAt 3 12 (itemAt 2 9 firstItem)

/-- A short branch and a longer one. -/
def forked : ForkDatabase where
  index := [upperItem, itemAt 2 9 firstItem, itemAt 1 6 firstItem, firstItem]
  head := some upperItem
  nextPtr := 4

theorem forked_reachable : (system timeProtocol).Reachable forked := by
  have hpush {f f' : ForkDatabase} {b : SignedBlock} (h : (system timeProtocol).Reachable f)
      (hpush : f.pushBlock' timeProtocol b = .ok f') : (system timeProtocol).Reachable f' :=
    Reach.step (e := .pushBlock b) h trivial (Step.pushBlock hpush)
  have h : (system timeProtocol).Reachable ⟨[firstItem], some firstItem, 1024, [], 1⟩ :=
    Reach.step (e := .startBlock firstItem.data) (.initial rfl) trivial Step.startBlock
  have h : (system timeProtocol).Reachable
      ⟨[itemAt 1 6 firstItem, firstItem], some (itemAt 1 6 firstItem), 1024, [], 2⟩ :=
    hpush (b := (itemAt 1 6 firstItem).data) h (by decide +kernel)
  have h : (system timeProtocol).Reachable
      ⟨[itemAt 2 9 firstItem, itemAt 1 6 firstItem, firstItem], some (itemAt 1 6 firstItem), 1024,
        [], 3⟩ :=
    hpush (b := (itemAt 2 9 firstItem).data) h (by decide +kernel)
  exact hpush (b := upperItem.data) h (by decide +kernel)

theorem fetchBranchFrom_forked :
    ∃ first second, forked.fetchBranchFrom timeProtocol ⟨3, 12⟩ ⟨2, 6⟩ = .ok (first, second) ∧
      Branches timeProtocol forked upperItem (itemAt 1 6 firstItem) first second :=
  fetchBranchFrom_of_reach (u := itemAt 2 9 firstItem) (v := itemAt 1 6 firstItem) forked_reachable
    rfl rfl (by decide) (by unfold BuildsOn; decide) (by unfold BuildsOn; decide) (by decide)
    (by decide) rfl

end fork

end ForkDatabase

end Golos
