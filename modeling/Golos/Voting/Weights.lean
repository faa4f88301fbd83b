import Golos.Voting.Board
import Golos.Voting.Lemmas.Weights

/-!
This module contains when the weights of the votes on a comment add up: in every run, as long as the curve
is not linear or no vote that counts has been turned against the comment.
-/

namespace Golos

open Checked

namespace Voting

open CalculateWeightHelper

variable {s : Voting}

section info

/--
The weights of the listed votes and of the auction window are all of the weight, the parts before and
after the end of the window are too, and no number leaves its range on the way there.
-/
def AddsUp (s : Voting) (comment : CommentObject) (fullList : Bool) : Prop :=
  ∃ info, s.commentCurationInfo exact64 comment fullList = .ok info ∧
    s.commentCurationInfo wrap64 comment fullList = .ok info ∧
    info.totalVoteWeight = weightOf info.voteList + info.auctionWindowWeight ∧
    info.votesInAuctionWindowWeight + info.votesAfterAuctionWindowWeight + info.auctionWindowWeight =
      info.totalVoteWeight

/-- No vote that counts has been turned against the comment. -/
def NoneTurned (s : Voting) (comment : Nat) : Prop :=
  ∀ v ∈ s.votesOn comment, 0 < v.origRshares → 0 ≤ v.rshares

instance (comment : Nat) : Decidable (s.NoneTurned comment) :=
  inferInstanceAs (Decidable (∀ v ∈ s.votesOn comment, 0 < v.origRshares → 0 ≤ v.rshares))

theorem weightOf_insertionSort (l : List CommentVoteInfo) :
    weightOf (l.insertionSort s.Heavier) = weightOf l := by
  unfold weightOf
  exact ((List.perm_insertionSort _ _).map _).sum_eq

theorem windowWeightOf_insertionSort (window : Nat) (l : List CommentVoteInfo) :
    windowWeightOf window (l.insertionSort s.Heavier) = windowWeightOf window l := by
  unfold windowWeightOf
  exact ((List.perm_insertionSort _ _).map _).sum_eq

/-- The price of Golos Power, which comments with a threshold need. -/
def HasPrice (s : Voting) (comment : Nat) : Prop :=
  (s.getCommentBill comment).minGolosPowerToCurate ≠ 0 →
    ∃ shares, s.staking.toVests (s.getCommentBill comment).minGolosPowerToCurate = .ok shares

theorem minVestingShares_of_hasPrice {comment : Nat} (h : s.HasPrice comment) :
    ∃ shares, (if (s.getCommentBill comment).minGolosPowerToCurate ≠ 0 then
      s.staking.toVests (s.getCommentBill comment).minGolosPowerToCurate
    else
      pure 0 : Result ℤ) = .ok shares := by
  split
  . next hne => exact h hne
  . exact ⟨0, rfl⟩

theorem addsUp_of_paid {c : CommentObject} (hpaid : c.lastPayout ≠ 0) (hprice : s.HasPrice c.id) :
    s.AddsUp c false := by
  obtain ⟨shares, hshares⟩ := minVestingShares_of_hasPrice hprice
  have hinfo : ∀ store, s.commentCurationInfo store c false =
      .ok { comment := c, minVestingSharesToCurate := shares, curve := s.detectCurationCurve c } := by
    intro store
    unfold commentCurationInfo
    dsimp only
    rw [hshares, ok_bind, if_pos ⟨hpaid, by decide⟩]
    rfl
  exact ⟨_, hinfo exact64, hinfo wrap64, rfl, rfl⟩

/-- The info of a comment whose votes have these weights. -/
def infoOf (s : Voting) (c : CommentObject) (shares : ℤ)
    (r : CalculateWeightHelper × List CommentVoteInfo) (after : Nat) : CommentCurationInfo where
  comment := c
  minVestingSharesToCurate := shares
  voteList := r.2.insertionSort s.Heavier
  totalVoteWeight := r.1.totalVoteWeight
  auctionWindowWeight := r.1.auctionWindowWeight
  votesInAuctionWindowWeight := r.1.votesInAuctionWindowWeight
  votesAfterAuctionWindowWeight := after
  curve := s.detectCurationCurve c

theorem commentCurationInfo_eq_ok {store : Store} {c : CommentObject} {fullList : Bool} {shares : ℤ}
    {info : CommentCurationInfo} (hlisted : c.lastPayout = 0 ∨ fullList)
    (hshares : (if (s.getCommentBill c.id).minGolosPowerToCurate ≠ 0 then
      s.staking.toVests (s.getCommentBill c.id).minGolosPowerToCurate
    else
      pure 0 : Result ℤ) = .ok shares) :
    s.commentCurationInfo store c fullList = .ok info ↔
      ∃ r after, calculateWeights store (s.detectCurationCurve c) (s.window c.id) fullList
          (s.votesOn c.id) {} = .ok r ∧
        store ((r.1.totalVoteWeight : ℤ) - r.1.votesInAuctionWindowWeight -
          r.1.auctionWindowWeight) = .ok after ∧
        s.infoOf c shares r after = info := by
  have hnot : ¬(c.lastPayout ≠ 0 ∧ ¬fullList) := by
    rintro ⟨hpaid, hfull⟩
    rcases hlisted with hzero | hfull'
    . exact hpaid hzero
    . exact hfull hfull'
  unfold commentCurationInfo
  dsimp only
  rw [hshares, ok_bind, if_neg hnot]
  simp only [bind_eq_ok, pure_eq_ok]
  constructor
  . rintro ⟨r, hr, after, hafter, rfl⟩
    exact ⟨r, after, hr, hafter, rfl⟩
  . rintro ⟨r, after, hr, hafter, rfl⟩
    exact ⟨r, hr, after, hafter, rfl⟩

/-- The weights of an info as they should be. -/
structure Weighed (window : Nat) (c : CommentCurationInfo) : Prop where
  total : c.totalVoteWeight = weightOf c.voteList + c.auctionWindowWeight
  parts : c.votesInAuctionWindowWeight + c.votesAfterAuctionWindowWeight + c.auctionWindowWeight =
    c.totalVoteWeight
  inWindow : c.votesInAuctionWindowWeight = windowWeightOf window c.voteList
  lt : c.totalVoteWeight < 2 ^ 64

theorem exists_weighed {c : CommentObject} {fullList : Bool} {shares : ℤ}
    (hlisted : c.lastPayout = 0 ∨ fullList)
    (hshares : (if (s.getCommentBill c.id).minGolosPowerToCurate ≠ 0 then
      s.staking.toVests (s.getCommentBill c.id).minGolosPowerToCurate
    else
      pure 0 : Result ℤ) = .ok shares)
    (hcurve : s.detectCurationCurve c ≠ .detect)
    (hfits : Fits (s.detectCurationCurve c) (s.votesOn c.id))
    (hfair : AllFair (s.detectCurationCurve c) (s.window c.id) [] (s.votesOn c.id)) :
    ∃ info, s.commentCurationInfo exact64 c fullList = .ok info ∧
      s.commentCurationInfo wrap64 c fullList = .ok info ∧ info.comment = c ∧
      (∀ i ∈ info.voteList, i.vote ∈ s.votesOn c.id) ∧ Weighed (s.window c.id) info := by
  obtain ⟨hends, htally⟩ :=
    calculateWeights_of_tally (s.window c.id) fullList hcurve (Tally.empty hcurve) hfits
  obtain ⟨r, hr⟩ := hends.mpr hfair
  have ht := htally r hr
  have htotal := ht.totalVoteWeight
  have hin := ht.inWindow
  have hin_le := ht.inWindow_le
  have hlt : r.1.totalVoteWeight < 2 ^ 64 := ht.le_rawWeight.trans_lt hfits.raw
  obtain ⟨after, hafter, hparts⟩ : ∃ after, exact64 ((r.1.totalVoteWeight : ℤ) -
        r.1.votesInAuctionWindowWeight - r.1.auctionWindowWeight) = .ok after ∧
      r.1.votesInAuctionWindowWeight + after + r.1.auctionWindowWeight =
        r.1.totalVoteWeight := by
    refine ⟨_, exact64_eq_ok.mpr ⟨?_, ?_, rfl⟩, ?_⟩
    . omega
    . omega
    . omega
  refine ⟨s.infoOf c shares r after, ?_, ?_, rfl, ?_, ?_⟩
  . exact (commentCurationInfo_eq_ok hlisted hshares).mpr ⟨r, after, hr, hafter, rfl⟩
  . exact (commentCurationInfo_eq_ok hlisted hshares).mpr
      ⟨r, after, calculateWeights_wrap64 hr, wrap64_of_exact64 hafter, rfl⟩
  . intro i hi
    rw [infoOf] at hi
    exact vote_mem_of_calculateWeights hr i ((List.mem_insertionSort _).mp hi)
  . exact {
      total := by
        show r.1.totalVoteWeight =
          weightOf (r.2.insertionSort s.Heavier) + r.1.auctionWindowWeight
        rw [weightOf_insertionSort]
        omega
      parts := hparts
      inWindow := by
        show r.1.votesInAuctionWindowWeight = windowWeightOf _ (r.2.insertionSort s.Heavier)
        rw [windowWeightOf_insertionSort]
        omega
      lt := hlt
    }

theorem addsUp_iff_allFair {c : CommentObject} {fullList : Bool}
    (hlisted : c.lastPayout = 0 ∨ fullList) (hprice : s.HasPrice c.id)
    (hcurve : s.detectCurationCurve c ≠ .detect)
    (hfits : Fits (s.detectCurationCurve c) (s.votesOn c.id)) :
    s.AddsUp c fullList ↔
      AllFair (s.detectCurationCurve c) (s.window c.id) [] (s.votesOn c.id) := by
  obtain ⟨shares, hshares⟩ := minVestingShares_of_hasPrice hprice
  constructor
  . rintro ⟨info, hinfo, -⟩
    obtain ⟨r, -, hr, -⟩ := (commentCurationInfo_eq_ok hlisted hshares).mp hinfo
    exact (calculateWeights_of_tally _ fullList hcurve (Tally.empty hcurve) hfits).1.mp ⟨r, hr⟩
  . intro hfair
    obtain ⟨info, hexact, hwrap, -, -, hweighed⟩ :=
      exists_weighed hlisted hshares hcurve hfits hfair
    exact ⟨info, hexact, hwrap, hweighed.total, hweighed.parts⟩

/-- Votes that were cast in the window only need shares to give. -/
theorem allFair_iff_of_inWindow {curve : CurationCurve} {window : Nat}
    {done votes : List CommentVoteObject} (h : ∀ v ∈ votes, v.auctionTime ≤ window) :
    AllFair curve window done votes ↔
      (curve = .linear → ∀ v ∈ votes, 0 < v.origRshares → 0 ≤ v.rshares) := by
  induction votes generalizing done with
  | nil => simp [AllFair]
  | cons v votes ih =>
    have hwithin : Within window v.auctionTime (curveWeight curve done v) :=
      within_of_le (h v List.mem_cons_self)
    have hfair : Fair curve window done v ↔ (curve = .linear → 0 ≤ v.rshares) :=
      ⟨fun hfair => hfair.rshares, fun hrshares => ⟨hrshares, hwithin⟩⟩
    rw [AllFair, ih fun v hv => h v (List.mem_cons_of_mem _ hv), hfair]
    simp only [List.mem_cons, forall_eq_or_imp]
    constructor
    . rintro ⟨hhead, htail⟩ hlinear
      exact ⟨fun hpos => hhead hpos hlinear, htail hlinear⟩
    . intro hall
      exact ⟨fun hpos hlinear => (hall hlinear).1 hpos, fun hlinear => (hall hlinear).2⟩

end info

section fits

theorem sharesOf_votesOn (s : Voting) (comment : Nat) :
    sharesOf (s.votesOn comment) = s.curationOf comment := by
  refine (Table.sum_filter s.votes (fun v => v.comment = comment) fun v =>
    max v.origRshares 0).trans (Table.sum_congr _ ?_)
  intro v _
  simp

theorem linearShares_le (votes : List CommentVoteObject) :
    (linearShares votes : ℤ) ≤ (votes.map fun v => |v.rshares|).sum := by
  induction votes with
  | nil => rfl
  | cons v votes ih =>
    have habs := le_abs_self v.rshares
    have hnonneg := abs_nonneg v.rshares
    simp only [linearShares, List.map_cons, List.sum_cons] at ih ⊢
    split
    . omega
    . omega

theorem absOf_eq (s : Voting) (comment : Nat) :
    ((s.votesOn comment).map fun v => |v.rshares|).sum = s.absOf comment := by
  refine (Table.sum_filter s.votes (fun v => v.comment = comment) fun v =>
    |v.rshares|).trans (Table.sum_congr _ ?_)
  intro v _
  simp

theorem mem_votesOn {comment : Nat} {v : CommentVoteObject} :
    v ∈ s.votesOn comment ↔ v ∈ s.votes.rows ∧ v.comment = comment := by
  simp [votesOn]

end fits

end Voting

namespace Board

open Voting

variable {w : Board} {c : Voting.CommentObject}

/-- The votes on a comment leave room for all of the weights in 64 bits. -/
theorem Invariant.fits (h : Invariant w) (hc : c ∈ w.db.comments.rows) (curve : CurationCurve) :
    Fits curve (w.db.votesOn c.id) := by
  have hbooked := h.booked c hc
  have hshares : sharesOf (w.db.votesOn c.id) ≤ maxInt64 := by
    rw [sharesOf_votesOn]
    exact hbooked.curationOf_le
  refine ⟨?_, hshares, ?_⟩
  . intro v hv
    exact (h.votes v (mem_votesOn.mp hv).1).2
  . cases curve with
    | bounded => exact boundedWeight_lt _
    | linear =>
      have hle := linearShares_le (w.db.votesOn c.id)
      have hmax := hbooked.absOf_le
      rw [absOf_eq] at hle
      show linearShares _ < _
      unfold maxInt64 at hmax
      omega
    | squareRoot =>
      apply approxSqrt_lt
      unfold maxInt64 at hshares
      omega
    | detect => exact Nat.two_pow_pos _

/--
The weights of a comment that waits for its payout add up unless its curve is linear and a vote that
counts has been turned against it. After the payout they are only asked for with the full list of
votes, and then no vote may have been cast later than the window that is left says.
-/
theorem addsUp_iff (hw : publishing.Reachable w) (hc : c ∈ w.db.comments.rows) (fullList : Bool)
    (hcurve : w.db.detectCurationCurve c ≠ .detect) (hprice : w.db.HasPrice c.id) :
    (c.lastPayout = 0 →
      (w.db.AddsUp c fullList ↔ (w.db.detectCurationCurve c = .linear → w.db.NoneTurned c.id))) ∧
    (c.lastPayout ≠ 0 →
      (w.db.AddsUp c fullList ↔ (fullList →
        AllFair (w.db.detectCurationCurve c) (w.db.window c.id) [] (w.db.votesOn c.id)))) := by
  have hinv := invariant_of_reachable hw
  have hfits := hinv.fits hc (w.db.detectCurationCurve c)
  constructor
  . intro hpending
    rw [addsUp_iff_allFair (.inl hpending) hprice hcurve hfits]
    apply allFair_iff_of_inWindow
    intro v hv
    obtain ⟨hrow, hid⟩ := mem_votesOn.mp hv
    exact (hinv.booked c hc).inWindow hpending v hrow hid
  . intro hpaid
    cases fullList with
    | false => simp [addsUp_of_paid hpaid hprice]
    | true =>
      rw [addsUp_iff_allFair (.inr rfl) hprice hcurve hfits]
      simp

section turned

/-- The witnesses have voted for a linear curve, and nobody has written anything. -/
def silent : Voting where
  staking :=
    { accounts :=
        ⟨
          [
            { name := "null" },
            { name := "alice" },
            { name := "bob", vestingShares := 1000000000000 },
            { name := "carol", vestingShares := 1000000000000 }
          ],
          by decide
        ⟩
      headBlockTime := 1700000000 }
  voters := ⟨[{ name := "null" }, { name := "alice" }, { name := "bob" }, { name := "carol" }], by decide⟩

def post : Voting :=
  (silent.createComment 0 "alice" 7 none {}).toOption.getD {}

def ballot (weight : ℤ) : VoteOperation where
  voter := "bob"
  author := "alice"
  permlinkSize := 4
  hashlink := 7
  weight := weight

def liked : Voting :=
  (post.vote (ballot 10000)).toOption.getD {}

def turned : Voting :=
  (liked.vote (ballot (-10000))).toOption.getD {}

theorem createComment_silent : silent.createComment 0 "alice" 7 none {} = .ok post :=
  eq_ok_of_isSome (by decide +kernel)

theorem vote_post : post.vote (ballot 10000) = .ok liked :=
  eq_ok_of_isSome (by decide +kernel)

theorem vote_liked : liked.vote (ballot (-10000)) = .ok turned :=
  eq_ok_of_isSome (by decide +kernel)

theorem reachable_liked : publishing.Reachable ⟨liked, 1⟩ := by
  have hpost : publishing.Reachable ⟨post, 1⟩ :=
    .step (e := .comment "alice" 7 none {}) (s := ⟨silent, 0⟩) (.initial ⟨rfl, rfl, rfl⟩) trivial
      ⟨by decide, createComment_silent, rfl⟩
  exact .step (e := .vote (ballot 10000)) hpost trivial ⟨vote_post, rfl⟩

theorem reachable_turned : publishing.Reachable ⟨turned, 1⟩ :=
  .step (e := .vote (ballot (-10000))) reachable_liked trivial ⟨vote_liked, rfl⟩

/-- The only vote has become one against the comment, and its weight is almost `2 ^ 64`. -/
theorem turned_not_addsUp :
    publishing.Reachable ⟨turned, 1⟩ ∧ ∃ c ∈ turned.comments.rows,
      c.lastPayout = 0 ∧ turned.detectCurationCurve c = .linear ∧ ¬turned.AddsUp c false := by
  refine ⟨reachable_turned, ?_⟩
  have hc : ∃ c ∈ turned.comments.rows, c.lastPayout = 0 ∧ turned.detectCurationCurve c = .linear ∧
      (turned.commentCurationInfo exact64 c false).toOption.isSome = false := by
    decide +kernel
  obtain ⟨c, hmem, hpending, hcurve, hnone⟩ := hc
  refine ⟨c, hmem, hpending, hcurve, ?_⟩
  rintro ⟨info, hinfo, -⟩
  rw [hinfo] at hnone
  cases hnone

/-- The auction window is over. -/
def later : Voting :=
  { liked with staking := { liked.staking with headBlockTime := 1700010000 } }

def ballotOfCarol : VoteOperation :=
  { ballot 10000 with voter := "carol" }

def joined : Voting :=
  (later.vote ballotOfCarol).toOption.getD {}

/-- Bob takes half of his vote back. -/
def halved : Voting :=
  (joined.vote (ballot 5000)).toOption.getD {}

theorem reachable_halved : publishing.Reachable ⟨halved, 1⟩ := by
  have hvote : later.vote ballotOfCarol = .ok joined := eq_ok_of_isSome (by decide +kernel)
  have hchange : joined.vote (ballot 5000) = .ok halved := eq_ok_of_isSome (by decide +kernel)
  have hlater : publishing.Reachable ⟨later, 1⟩ :=
    .step (e := .other) reachable_liked trivial ⟨rfl, rfl, rfl, rfl⟩
  have hjoined : publishing.Reachable ⟨joined, 1⟩ :=
    .step (e := .vote ballotOfCarol) hlater trivial ⟨hvote, rfl⟩
  exact .step (e := .vote (ballot 5000)) hjoined trivial ⟨hchange, rfl⟩

theorem addsUp_halved :
    (halved.votes.rows.map fun v => (v.voter, v.numChanges, v.auctionTime)) =
        [("bob", 1, 0), ("carol", 0, 1800)] ∧
      ∃ c ∈ halved.comments.rows, halved.AddsUp c false := by
  have hc : ∃ c ∈ halved.comments.rows, c.lastPayout = 0 ∧ c.id = 0 ∧
      halved.detectCurationCurve c = .linear := by
    decide +kernel
  obtain ⟨c, hmem, hpending, hid, hcurve⟩ := hc
  have hprice : halved.HasPrice c.id := by
    rw [hid]
    intro hne
    exact absurd (by decide +kernel) hne
  have hturned : halved.NoneTurned c.id := by
    rw [hid]
    decide +kernel
  refine ⟨by decide +kernel, c, hmem, ?_⟩
  exact ((addsUp_iff reachable_halved hmem false (by rw [hcurve]; decide) hprice).1 hpending).mpr
    fun _ => hturned

end turned

end Board

section squareRoot

open Voting CalculateWeightHelper

/-- The weights that the square root curve gives to votes of these shares, one after the other. -/
def squareRootWeights (store : Store) : CalculateWeightHelper → List Nat → Result (List Nat)
  | _, [] => pure []
  | h, rshares :: votes => do
    let voteRshares ← int64 (h.voteRshares + rshares) .overflowException
    let (h, weight) ← calculateSquareRoot store { h with voteRshares := voteRshares }
    let weights ← squareRootWeights store h votes
    pure (weight :: weights)

variable {h : CalculateWeightHelper} {before total : Nat}

theorem calculateSquareRoot_exact64 (hold : h.oldVoteWeight = approxSqrt before)
    (hle : before ≤ total) (hmax : (total : ℤ) ≤ maxInt64) :
    calculateSquareRoot exact64 { h with voteRshares := total } =
      .ok ({ h with voteRshares := total, oldVoteWeight := approxSqrt total },
        approxSqrt total - approxSqrt before) := by
  have hlt : total < 2 ^ 64 := by
    unfold maxInt64 at hmax
    omega
  unfold calculateSquareRoot
  rw [toUint128_of_nonneg (Int.natCast_nonneg total) hmax, Int.toNat_natCast,
    nextWeight_eq_ok (h := { h with voteRshares := total }) hold (approxSqrt_mono hle)
      (approxSqrt_lt hlt)]

theorem calculateSquareRoot_wrap64 {r : CalculateWeightHelper × Nat}
    (hr : calculateSquareRoot exact64 h = .ok r) : calculateSquareRoot wrap64 h = .ok r := by
  simp only [calculateSquareRoot, nextWeight, bind_eq_ok] at hr ⊢
  obtain ⟨weight, hweight, hrest⟩ := hr
  exact ⟨weight, wrap64_of_exact64 hweight, hrest⟩

/-- No difference leaves its range, and the differences add up to the root of all shares. -/
theorem squareRootWeights_eq_ok {votes : List Nat} (hbefore : h.voteRshares = before)
    (hold : h.oldVoteWeight = approxSqrt before) (hmax : (before + votes.sum : ℤ) ≤ maxInt64) :
    ∃ weights, squareRootWeights exact64 h votes = .ok weights ∧
      squareRootWeights wrap64 h votes = .ok weights ∧
      weights.sum + approxSqrt before = approxSqrt (before + votes.sum) := by
  induction votes generalizing h before with
  | nil => exact ⟨[], rfl, rfl, by simp⟩
  | cons rshares votes ih =>
    rw [List.sum_cons, Nat.cast_add] at hmax
    have htotal : ((before + rshares : Nat) : ℤ) ≤ maxInt64 := by
      rw [Nat.cast_add]
      omega
    have hint : int64 (h.voteRshares + rshares) ChainException.overflowException =
        .ok ((before + rshares : Nat) : ℤ) := by
      rw [hbefore, ← Nat.cast_add]
      apply int64_of_le _ htotal
      unfold minInt64
      omega
    have hexact := calculateSquareRoot_exact64 hold (Nat.le_add_right before rshares) htotal
    obtain ⟨weights, hweights, hwrapped, hsum⟩ :=
      ih (h := { h with
          voteRshares := (before + rshares : Nat)
          oldVoteWeight := approxSqrt (before + rshares) }) rfl rfl (by rw [Nat.cast_add]; omega)
    refine ⟨(approxSqrt (before + rshares) - approxSqrt before) :: weights, ?_, ?_, ?_⟩
    . simp only [squareRootWeights, hint, ok_bind, hexact, hweights, pure_eq_ok]
    . simp only [squareRootWeights, hint, ok_bind, calculateSquareRoot_wrap64 hexact, hwrapped,
        pure_eq_ok]
    . have hmono := approxSqrt_mono (Nat.le_add_right before rshares)
      rw [List.sum_cons, List.sum_cons, ← Nat.add_assoc before, ← hsum]
      omega

/-- The square root of the curve grows, stays near the exact one, and its differences add up. -/
theorem approxSqrt_spec :
    Monotone approxSqrt ∧ (∀ x, approxSqrt x = 0 ↔ x = 0) ∧
      (∀ x, x.sqrt ≤ approxSqrt x ∧ 16 * approxSqrt x ≤ 17 * x.sqrt + 16) ∧
      ∀ votes : List Nat, (votes.sum : ℤ) ≤ maxInt64 →
        ∃ weights, squareRootWeights exact64 {} votes = .ok weights ∧
          squareRootWeights wrap64 {} votes = .ok weights ∧ weights.sum = approxSqrt votes.sum := by
  refine ⟨fun _ _ => approxSqrt_mono, fun _ => approxSqrt_eq_zero, ?_, ?_⟩
  . intro x
    exact ⟨sqrt_le_approxSqrt x, approxSqrt_le_sqrt x⟩
  . intro votes hmax
    have hempty : ({} : CalculateWeightHelper).voteRshares = (0 : Nat) := rfl
    obtain ⟨weights, hexact, hwrap, hsum⟩ :=
      squareRootWeights_eq_ok hempty rfl (by simpa using hmax)
    refine ⟨weights, hexact, hwrap, ?_⟩
    simpa [approxSqrt_eq_zero.mpr rfl] using hsum

theorem approxSqrt_spec_votes :
    ∃ weights, squareRootWeights exact64 {} [9, 16] = .ok weights ∧
      squareRootWeights wrap64 {} [9, 16] = .ok weights ∧ weights.sum = approxSqrt 25 :=
  approxSqrt_spec.2.2.2 [9, 16] (by decide)

end squareRoot

end Golos
