import Golos.Lib.TokenBucket
import Golos.Posting.Impl
import Golos.Voting.Lemmas.Outcome

/-!
This module contains the windows for posts, comments and votes as token buckets, and what each
evaluator does to them.
-/

namespace Golos

open Checked

namespace Voting

variable {s s' s'' : Voting}

def votingCapacity (s : Voting) (name : AccountName) : Option Nat :=
  (s.voters.find? name).map VoterObject.votingCapacity

def lastVoteTime (s : Voting) (name : AccountName) : Option Nat :=
  (s.staking.accounts.find? name).map StakeAccountObject.lastVoteTime

/-- No account has another voting capacity, nor has it voted at another time. -/
structure SameWindows (s s' : Voting) : Prop where
  votingCapacity : s'.votingCapacity = s.votingCapacity
  staking : s'.staking = s.staking
  medianProps : s'.medianProps = s.medianProps

namespace SameWindows

theorem refl (s : Voting) : SameWindows s s :=
  ⟨rfl, rfl, rfl⟩

theorem trans (h : SameWindows s s') (h' : SameWindows s' s'') : SameWindows s s'' where
  votingCapacity := h'.votingCapacity.trans h.votingCapacity
  staking := h'.staking.trans h.staking
  medianProps := h'.medianProps.trans h.medianProps

theorem modifyVoter {name : AccountName} {f : VoterObject → Result VoterObject}
    (hf : ∀ a a', f a = .ok a' → a'.votingCapacity = a.votingCapacity)
    (h : s.modifyVoter name f = .ok s') : SameWindows s s' := by
  obtain ⟨a, a', ha, ha', rfl⟩ := modifyVoter_eq_ok.mp h
  refine ⟨?_, rfl, rfl⟩
  funext other
  unfold Voting.votingCapacity
  dsimp only
  rw [Table.find?_modify]
  split
  . next heq =>
    rw [heq, ha]
    exact congrArg some (hf a a' ha')
  . rfl

theorem addTipBalance {name : AccountName} {amount : ℤ} (h : s.addTipBalance name amount = .ok s') :
    SameWindows s s' := by
  refine modifyVoter ?_ h
  intro a a' ha'
  simp only [bind_eq_ok, pure_eq_ok] at ha'
  obtain ⟨_, -, rfl⟩ := ha'
  rfl

theorem addReputation {name : AccountName} {delta : ℤ} (h : s.addReputation name delta = .ok s') :
    SameWindows s s' := by
  refine modifyVoter ?_ h
  intro a a' ha'
  simp only [bind_eq_ok, pure_eq_ok] at ha'
  obtain ⟨_, -, rfl⟩ := ha'
  rfl

theorem nullTip {payer : AccountName} {fee : ℤ} (h : s.nullTip payer fee = .ok s') :
    SameWindows s s' := by
  simp only [Voting.nullTip, bind_eq_ok] at h
  obtain ⟨s₁, hs₁, h⟩ := h
  exact (addTipBalance hs₁).trans (addTipBalance h)

theorem checkNegrepPostingBandwidth {name : AccountName}
    (h : s.checkNegrepPostingBandwidth name = .ok s') : SameWindows s s' := by
  have hposting : ∀ {s s' : Voting}, (s.modifyVoter name fun a =>
      pure { a with lastPostingAction := s.headBlockTime }) = .ok s' → SameWindows s s' := by
    intro s s' h
    refine modifyVoter ?_ h
    intro a a' ha'
    rw [pure_eq_ok] at ha'
    exact ha' ▸ rfl
  simp only [Voting.checkNegrepPostingBandwidth, bind_eq_ok] at h
  obtain ⟨acc, -, h⟩ := h
  split at h
  . exact hposting h
  . simp only [bind_eq_ok] at h
    obtain ⟨-, -, s₁, hs₁, h⟩ := h
    refine (nullTip hs₁).trans (modifyVoter ?_ h)
    intro a a' ha'
    rw [pure_eq_ok] at ha'
    exact ha' ▸ rfl

theorem payUnwantedOperation {name : AccountName} (h : s.payUnwantedOperation name = .ok s') :
    SameWindows s s' := by
  simp only [Voting.payUnwantedOperation, bind_eq_ok, pure_eq_ok] at h
  obtain ⟨-, -, -, -, s₁, hs₁, _, -, rfl⟩ := h
  exact (addTipBalance hs₁).trans ⟨rfl, rfl, rfl⟩

theorem voteReputation {voter author : AccountName} {rshares : ℤ}
    (h : s.voteReputation voter author rshares = .ok s') : SameWindows s s' := by
  simp only [Voting.voteReputation, bind_eq_ok] at h
  obtain ⟨_, -, h⟩ := h
  split at h
  . rw [pure_eq_ok] at h
    exact h ▸ refl s
  . simp only [bind_eq_ok] at h
    obtain ⟨_, -, h⟩ := h
    split at h
    . exact addReputation h
    . rw [pure_eq_ok] at h
      exact h ▸ refl s

theorem addChildrenAbsRshares {c : CommentObject} {absRshares : ℤ}
    (h : s.addChildrenAbsRshares c absRshares = .ok s') : SameWindows s s' := by
  simp only [Voting.addChildrenAbsRshares, bind_eq_ok, pure_eq_ok] at h
  obtain ⟨_, -, _, -, rfl⟩ := h
  exact ⟨rfl, rfl, rfl⟩

theorem createVote {v : CommentVoteObject} (h : s.createVote v = .ok s') : SameWindows s s' := by
  simp only [Voting.createVote, bind_eq_ok, pure_eq_ok] at h
  obtain ⟨_, -, rfl⟩ := h
  exact ⟨rfl, rfl, rfl⟩

theorem createComment {id : Nat} {author : AccountName} {hashlink : Nat} {root : Option Nat}
    {bill : CommentBill} (h : s.createComment id author hashlink root bill = .ok s') :
    SameWindows s s' := by
  simp only [Voting.createComment, bind_eq_ok, pure_eq_ok] at h
  obtain ⟨_, -, _, -, rfl⟩ := h
  exact ⟨rfl, rfl, rfl⟩

end SameWindows

/-- The account has voted now, and took what that takes from its window before. -/
structure Voted (s s' : Voting) (name : AccountName) : Prop where
  votingCapacity : s'.votingCapacity = s.votingCapacity
  staking : ∃ power, s'.staking = (s.setVotingPower name power).staking
  medianProps : s'.medianProps = s.medianProps

namespace Voted

variable {name : AccountName}

theorem before (h : SameWindows s s') (h' : Voted s' s'' name) : Voted s s'' name where
  votingCapacity := h'.votingCapacity.trans h.votingCapacity
  staking := by
    obtain ⟨power, hpower⟩ := h'.staking
    refine ⟨power, hpower.trans ?_⟩
    unfold setVotingPower headBlockTime
    rw [h.staking]
  medianProps := h'.medianProps.trans h.medianProps

theorem after (h : Voted s s' name) (h' : SameWindows s' s'') : Voted s s'' name where
  votingCapacity := h'.votingCapacity.trans h.votingCapacity
  staking := by
    obtain ⟨power, hpower⟩ := h.staking
    exact ⟨power, h'.staking.trans hpower⟩
  medianProps := h'.medianProps.trans h.medianProps

theorem usePower (s : Voting) (name : AccountName) (power : VotePower) :
    Voted s (s.usePower name power) name :=
  ⟨rfl, ⟨_, rfl⟩, rfl⟩

theorem lastVoteTime_self (h : Voted s s' name) {last : Nat} (hlast : s.lastVoteTime name = some last) :
    s'.lastVoteTime name = some s.headBlockTime := by
  obtain ⟨power, hpower⟩ := h.staking
  unfold lastVoteTime at hlast ⊢
  obtain ⟨a, ha, -⟩ := Option.map_eq_some_iff.mp hlast
  rw [hpower]
  unfold setVotingPower
  dsimp only
  rw [Table.find?_modify_self, ha]
  rfl

theorem lastVoteTime_of_ne (h : Voted s s' name) {other : AccountName} (hne : other ≠ name) :
    s'.lastVoteTime other = s.lastVoteTime other := by
  obtain ⟨power, hpower⟩ := h.staking
  unfold lastVoteTime
  rw [hpower]
  unfold setVotingPower
  dsimp only
  rw [Table.find?_modify_of_ne]
  exact hne

theorem headBlockTime (h : Voted s s' name) : s'.headBlockTime = s.headBlockTime := by
  obtain ⟨power, hpower⟩ := h.staking
  unfold Voting.headBlockTime
  rw [hpower]
  rfl

theorem voteForAccount {op : VoteOperation} {power : VotePower}
    (h : s.voteForAccount op power = .ok s') : Voted s s' op.voter := by
  simp only [Voting.voteForAccount, bind_eq_ok, pure_eq_ok] at h
  obtain ⟨-, -, -, -, s₁, hs₁, rfl⟩ := h
  exact before (.voteReputation hs₁) (usePower s₁ op.voter power)

theorem firstVote {c : CommentObject} {account : StakeAccountObject} {op : VoteOperation}
    {power : VotePower} (h : s.firstVote c account op power = .ok s') : Voted s s' op.voter := by
  simp only [Voting.firstVote, bind_eq_ok] at h
  obtain ⟨_, -, -, -, -, -, -, -, _, -, _, -, _, -, s₁, hs₁, s₂, hs₂, h⟩ := h
  have hroot := SameWindows.addChildrenAbsRshares hs₁
  have hvote := hroot.trans (.createVote hs₂)
  refine (usePower s op.voter power).after ?_
  have hrep := SameWindows.voteReputation h
  exact ⟨hrep.votingCapacity.trans hvote.votingCapacity, hrep.staking.trans hvote.staking,
    hrep.medianProps.trans hvote.medianProps⟩

theorem changeVote {c : CommentObject} {v : CommentVoteObject} {op : VoteOperation}
    {power : VotePower} (h : s.changeVote c v op power = .ok s') : Voted s s' op.voter := by
  simp only [Voting.changeVote, unvoteReputation, bind_eq_ok] at h
  obtain ⟨s₀, ⟨-, -, hs₀⟩, -, -, -, -, -, -, _, -, _, -, _, -, s₁, hs₁, h⟩ := h
  have hroot := SameWindows.addChildrenAbsRshares hs₁
  have hrep := SameWindows.voteReputation h
  refine before (.addReputation hs₀) (after (usePower s₀ op.voter power) ?_)
  exact ⟨hrep.votingCapacity.trans hroot.votingCapacity, hrep.staking.trans hroot.staking,
    hrep.medianProps.trans hroot.medianProps⟩

end Voted

/-- What a vote takes of the capacity, or the payment that takes the place of it. -/
structure Uses (s s' : Voting) (name : AccountName) (capacity last left : Nat) : Prop where
  capacity : s.votingCapacity name = some capacity
  last : s.lastVoteTime name = some last
  left : s'.votingCapacity name = some left
  others : ∀ other, other ≠ name → s'.votingCapacity other = s.votingCapacity other
  staking : s'.staking = s.staking
  medianProps : s'.medianProps = s.medianProps

theorem uses_of_useVotingCapacity {name : AccountName} (h : s.useVotingCapacity name = .ok s') :
    ∃ capacity last left, Uses s s' name capacity last left ∧
      let consumption := s.medianProps.votesWindow / s.medianProps.votesPerWindow
      let current := min ((capacity + min s.medianProps.votesWindow
        ((s.headBlockTime - last) % 2 ^ 32 / 60)) % 2 ^ 16) s.medianProps.votesWindow
      (current < consumption ∧ left = capacity) ∨ left + consumption = current := by
  simp only [useVotingCapacity, bind_eq_ok, getVoter, Staking.getAccount, get_eq_ok] at h
  obtain ⟨voter, hvoter, account, haccount, -, -, h⟩ := h
  have hcapacity : s.votingCapacity name = some voter.votingCapacity := by
    unfold votingCapacity
    rw [hvoter]
    rfl
  have hlast : s.lastVoteTime name = some account.lastVoteTime := by
    unfold lastVoteTime
    rw [haccount]
    rfl
  split at h
  . next hlt =>
    simp only [bind_eq_ok] at h
    obtain ⟨-, -, h⟩ := h
    have hsame := SameWindows.nullTip h
    refine ⟨voter.votingCapacity, account.lastVoteTime, voter.votingCapacity, ?_, .inl ⟨hlt, rfl⟩⟩
    refine ⟨hcapacity, hlast, ?_, ?_, hsame.staking, hsame.medianProps⟩
    . rw [hsame.votingCapacity]
      exact hcapacity
    . intro other _
      rw [hsame.votingCapacity]
  . next hle =>
    obtain ⟨a, a', ha, ha', rfl⟩ := modifyVoter_eq_ok.mp h
    rw [pure_eq_ok] at ha'
    subst ha'
    refine ⟨voter.votingCapacity, account.lastVoteTime, _, ?_, .inr (Nat.sub_add_cancel ?_)⟩
    . refine ⟨hcapacity, hlast, ?_, ?_, rfl, rfl⟩
      . unfold votingCapacity
        dsimp only
        rw [Table.find?_modify_self, hvoter]
        rfl
      . intro other hne
        unfold votingCapacity
        dsimp only
        rw [Table.find?_modify_of_ne]
        exact hne
    . omega

end Voting

inductive WindowKind where
  | posts
  | comments
  | votes
  deriving DecidableEq

/-- The window that publishing goes by. -/
def CommentOperation.kind (op : CommentOperation) : WindowKind :=
  if op.parentAuthor = rootPostParent then .posts else .comments

namespace Posting

variable {s s' s'' : Posting}

section buckets

def window (s : Posting) : WindowKind → Nat
  | .posts => s.medianProps.postsWindow
  | .comments => s.medianProps.commentsWindow
  | .votes => s.voting.medianProps.votesWindow

def perWindow (s : Posting) : WindowKind → Nat
  | .posts => s.medianProps.postsPerWindow
  | .comments => s.medianProps.commentsPerWindow
  | .votes => s.voting.medianProps.votesPerWindow

abbrev consumption (s : Posting) (kind : WindowKind) : Nat :=
  s.window kind / s.perWindow kind

/-- The capacity that an account had left at its last action. -/
def bucket? (s : Posting) (kind : WindowKind) (name : AccountName) : Option TokenBucket :=
  match kind with
  | .posts => (s.posters.find? name).map fun a => ⟨a.postsCapacity, a.lastPost⟩
  | .comments => (s.posters.find? name).map fun a => ⟨a.commentsCapacity, a.lastComment⟩
  | .votes => do
    let level ← s.voting.votingCapacity name
    let last ← s.voting.lastVoteTime name
    pure ⟨level, last⟩

/-- `current_capacity` -/
def currentCapacity (s : Posting) (kind : WindowKind) (b : TokenBucket) : Nat :=
  min ((b.level + min (s.window kind) (s.getElapsed b.last)) % 2 ^ 16) (s.window kind)

/-- There is capacity for an action. -/
def Free (s : Posting) (kind : WindowKind) (name : AccountName) : Prop :=
  ∃ b ∈ s.bucket? kind name, s.consumption kind ≤ s.currentCapacity kind b

instance (kind : WindowKind) (name : AccountName) : Decidable (s.Free kind name) :=
  inferInstanceAs (Decidable (∃ b ∈ s.bucket? kind name, _ ≤ _))

theorem currentCapacity_le (s : Posting) (kind : WindowKind) (b : TokenBucket) :
    s.currentCapacity kind b ≤ b.refilled (s.window kind) 60 s.headBlockTime := by
  unfold currentCapacity TokenBucket.refilled getElapsed
  have hmod := Nat.mod_le (b.level + min (s.window kind) ((s.headBlockTime - b.last) % 2 ^ 32 / 60))
    (2 ^ 16)
  have helapsed : (s.headBlockTime - b.last) % 2 ^ 32 / 60 ≤ (s.headBlockTime - b.last) / 60 :=
    Nat.div_le_div_right (Nat.mod_le _ _)
  omega

/-- What an action leaves of the capacity: it pays if there is too little. -/
inductive Takes (s : Posting) (kind : WindowKind) (b : TokenBucket) : Nat → Prop
  | free {left : Nat} (h : left + s.consumption kind = s.currentCapacity kind b) : Takes s kind b left
  | paid (h : s.currentCapacity kind b < s.consumption kind) : Takes s kind b b.level

theorem takes_of_windowCapacity {kind : WindowKind} {b : TokenBucket} {x : Option Nat}
    (h : s.windowCapacity (s.window kind) (s.perWindow kind) b.level b.last = .ok x) :
    Takes s kind b (x.getD b.level) := by
  simp only [windowCapacity, bind_eq_ok] at h
  obtain ⟨-, -, h⟩ := h
  have hmod := Nat.mod_lt (b.level + min (s.window kind) (s.getElapsed b.last))
    (Nat.two_pow_pos 16)
  split at h
  . next hlt =>
    rw [pure_eq_ok] at h
    subst h
    exact .paid hlt
  . next hle =>
    rw [pure_eq_ok] at h
    subst h
    apply Takes.free
    unfold currentCapacity consumption
    dsimp only [Option.getD_some]
    generalize s.window kind / s.perWindow kind = consumption at hle
    omega

/-- The account acts: its bucket is used, and nobody else's. -/
structure Acts (s s' : Posting) (kind : WindowKind) (name : AccountName) : Prop where
  headBlockTime : s'.headBlockTime = s.headBlockTime
  window : s'.window = s.window
  perWindow : s'.perWindow = s.perWindow
  others : ∀ kind' name', ¬(kind' = kind ∧ name' = name) →
    s'.bucket? kind' name' = s.bucket? kind' name'
  takes : ∃ b left, s.bucket? kind name = some b ∧ Takes s kind b left ∧
    s'.bucket? kind name = some ⟨left, s.headBlockTime⟩

/-- No account acts. -/
structure Rests (s s' : Posting) : Prop where
  headBlockTime : s'.headBlockTime = s.headBlockTime
  window : s'.window = s.window
  perWindow : s'.perWindow = s.perWindow
  bucket? : s'.bucket? = s.bucket?

end buckets

section rests

theorem Rests.trans (h : Rests s s') (h' : Rests s' s'') : Rests s s'' where
  headBlockTime := h'.headBlockTime.trans h.headBlockTime
  window := h'.window.trans h.window
  perWindow := h'.perWindow.trans h.perWindow
  bucket? := h'.bucket?.trans h.bucket?

/-- The accounts that post, the properties and all that windows are made of in the rest. -/
structure SameWindows (s s' : Posting) : Prop where
  voting : s.voting.SameWindows s'.voting
  posters : s'.posters = s.posters
  medianProps : s'.medianProps = s.medianProps

namespace SameWindows

theorem refl (s : Posting) : SameWindows s s :=
  ⟨.refl _, rfl, rfl⟩

theorem trans (h : SameWindows s s') (h' : SameWindows s' s'') : SameWindows s s'' where
  voting := h.voting.trans h'.voting
  posters := h'.posters.trans h.posters
  medianProps := h'.medianProps.trans h.medianProps

theorem headBlockTime (h : SameWindows s s') : s'.headBlockTime = s.headBlockTime := by
  unfold Posting.headBlockTime Voting.headBlockTime
  rw [h.voting.staking]

theorem window (h : SameWindows s s') : s'.window = s.window := by
  funext kind
  unfold Posting.window
  rw [h.medianProps, h.voting.medianProps]

theorem perWindow (h : SameWindows s s') : s'.perWindow = s.perWindow := by
  funext kind
  unfold Posting.perWindow
  rw [h.medianProps, h.voting.medianProps]

theorem rests (h : SameWindows s s') : Rests s s' where
  headBlockTime := h.headBlockTime
  window := h.window
  perWindow := h.perWindow
  bucket? := by
    funext kind name
    unfold Posting.bucket? Voting.lastVoteTime
    rw [h.posters, h.voting.votingCapacity, h.voting.staking]

theorem onVoting {f : Voting → Result Voting}
    (hf : ∀ voting, f s.voting = .ok voting → s.voting.SameWindows voting)
    (h : s.onVoting f = .ok s') : SameWindows s s' := by
  simp only [Posting.onVoting, bind_eq_ok, pure_eq_ok] at h
  obtain ⟨voting, hvoting, rfl⟩ := h
  exact ⟨hf voting hvoting, rfl, rfl⟩

theorem makeUnlimitFee {author : AccountName} {bandwidth : String}
    (h : s.makeUnlimitFee author bandwidth = .ok s') : SameWindows s s' := by
  simp only [Posting.makeUnlimitFee, bind_eq_ok] at h
  obtain ⟨_, -, -, -, h⟩ := h
  exact onVoting (fun _ => .nullTip) h

theorem getBandwidth (s : Posting) (account : AccountName) :
    SameWindows s (s.getBandwidth account).1 := by
  unfold Posting.getBandwidth
  split
  . exact refl s
  . exact ⟨.refl _, rfl, rfl⟩

theorem calculate {op : CommentOperation} {band : AccountBandwidthObject} {rewardWeight : Nat}
    (h : s.calculate op band = .ok (s', rewardWeight)) : SameWindows s s' := by
  unfold Posting.calculate at h
  split at h
  . simp only [bind_eq_ok, pure_eq_ok, Prod.mk.injEq] at h
    obtain ⟨_, -, _, -, -, -, rfl, -⟩ := h
    exact ⟨.refl _, rfl, rfl⟩
  . rw [pure_eq_ok, Prod.mk.injEq] at h
    exact h.1 ▸ refl s

theorem checkNoBlocking {account blocking : AccountName}
    (h : s.checkNoBlocking account blocking = .ok s') : SameWindows s s' := by
  simp only [Posting.checkNoBlocking, bind_eq_ok] at h
  obtain ⟨blocked, -, h⟩ := h
  split at h
  . simp only [bind_eq_ok] at h
    obtain ⟨_, -, -, -, s₁, hs₁, h⟩ := h
    exact (onVoting (fun _ => .addTipBalance) hs₁).trans (onVoting (fun _ => .addTipBalance) h)
  . rw [pure_eq_ok] at h
    exact h ▸ refl s

theorem findParent {op : CommentOperation} {parent : Option Voting.CommentObject}
    (h : s.findParent op = .ok (s', parent)) : SameWindows s s' := by
  unfold Posting.findParent at h
  split at h
  . rw [pure_eq_ok, Prod.mk.injEq] at h
    exact h.1 ▸ refl s
  . simp only [bind_eq_ok, pure_eq_ok, Prod.mk.injEq] at h
    obtain ⟨_, -, s₁, hs₁, _, -, -, -, rfl, -⟩ := h
    exact checkNoBlocking hs₁

theorem countChild {op : CommentOperation} {fuel : Nat} {parent : Voting.CommentObject}
    (h : countChild op fuel s parent = .ok s') : SameWindows s s' := by
  induction fuel generalizing s parent with
  | zero =>
    unfold Posting.countChild at h
    rw [throw_eq_ok] at h
    cases h
  | succ fuel ih =>
    simp only [Posting.countChild, bind_eq_ok] at h
    obtain ⟨place, -, h⟩ := h
    have hcounted : SameWindows s { s with places := s.places.modify parent.id fun p =>
        { p with children := p.children + 1 } } :=
      ⟨.refl _, rfl, rfl⟩
    apply hcounted.trans
    split at h
    . split at h
      . rw [pure_eq_ok] at h
        exact h ▸ refl _
      . exact checkNoBlocking h
    . simp only [bind_eq_ok] at h
      obtain ⟨above, -, h⟩ := h
      exact ih h

theorem createComment {op : CommentOperation} {parent : Option Voting.CommentObject}
    {rewardWeight : Nat} (h : s.createComment op parent rewardWeight = .ok s') :
    SameWindows s s' := by
  simp only [Posting.createComment, bind_eq_ok] at h
  obtain ⟨above, -, voting, hvoting, places, -, h⟩ := h
  have hcreated : SameWindows s
      { s with voting := voting, places := places, nextCommentId := s.nextCommentId + 1 } :=
    ⟨.createComment hvoting, rfl, rfl⟩
  apply hcreated.trans
  split at h
  . rw [pure_eq_ok] at h
    exact h ▸ refl _
  . exact countChild h

theorem editComment {op : CommentOperation} {c : Voting.CommentObject}
    (h : s.editComment op c = .ok s') : SameWindows s s' := by
  simp only [Posting.editComment, bind_eq_ok, pure_eq_ok] at h
  obtain ⟨_, -, -, -, -, -, rfl⟩ := h
  exact refl s

end SameWindows

end rests

section acts

theorem Acts.before {kind : WindowKind} {name : AccountName} (h : Rests s s')
    (h' : Acts s' s'' kind name) : Acts s s'' kind name := by
  have hcapacity : s'.currentCapacity = s.currentCapacity := by
    funext kind b
    unfold currentCapacity getElapsed
    rw [h.window, h.headBlockTime]
  have hconsumption : s'.consumption kind = s.consumption kind := by
    unfold consumption
    rw [h.window, h.perWindow]
  constructor
  . exact h'.headBlockTime.trans h.headBlockTime
  . exact h'.window.trans h.window
  . exact h'.perWindow.trans h.perWindow
  . intro kind' name' hne
    rw [h'.others kind' name' hne, h.bucket?]
  . obtain ⟨b, left, hb, htakes, hleft⟩ := h'.takes
    rw [h.bucket?] at hb
    rw [h.headBlockTime] at hleft
    refine ⟨b, left, hb, ?_, hleft⟩
    cases htakes with
    | free htakes =>
      rw [hcapacity, hconsumption] at htakes
      exact .free htakes
    | paid htakes =>
      rw [hcapacity, hconsumption] at htakes
      exact .paid htakes

theorem Acts.after {kind : WindowKind} {name : AccountName} (h : Acts s s' kind name)
    (h' : Rests s' s'') : Acts s s'' kind name := by
  constructor
  . exact h'.headBlockTime.trans h.headBlockTime
  . exact h'.window.trans h.window
  . exact h'.perWindow.trans h.perWindow
  . intro kind' name' hne
    rw [h'.bucket?]
    exact h.others kind' name' hne
  . rw [h'.bucket?]
    exact h.takes

/-- The row of an account that publishes is written. -/
theorem acts_of_row {kind : WindowKind} {name : AccountName} {a a' : PosterObject}
    {bucket : PosterObject → TokenBucket} {left : Nat} (hvoting : s.voting.SameWindows s'.voting)
    (hmedian : s'.medianProps = s.medianProps) (hrow : s.posters.find? name = some a)
    (hself : s'.posters.find? name = some a')
    (hothers : ∀ n, n ≠ name → s'.posters.find? n = s.posters.find? n)
    (hkind : ∀ s : Posting, s.bucket? kind name = (s.posters.find? name).map bucket)
    (hrest : ∀ kind', kind' ≠ kind → s'.bucket? kind' name = s.bucket? kind' name)
    (htakes : Takes s kind (bucket a) left) (hbucket : bucket a' = ⟨left, s.headBlockTime⟩) :
    Acts s s' kind name where
  headBlockTime := by
    unfold Posting.headBlockTime Voting.headBlockTime
    rw [hvoting.staking]
  window := by
    funext kind
    unfold Posting.window
    rw [hmedian, hvoting.medianProps]
  perWindow := by
    funext kind
    unfold Posting.perWindow
    rw [hmedian, hvoting.medianProps]
  others := by
    intro kind' name' hne
    by_cases hname : name' = name
    . subst hname
      exact hrest kind' fun heq => hne ⟨heq, rfl⟩
    . unfold bucket? Voting.lastVoteTime
      rw [hothers name' hname, hvoting.votingCapacity, hvoting.staking]
  takes := by
    refine ⟨bucket a, left, ?_, htakes, ?_⟩
    . rw [hkind, hrow]
      rfl
    . rw [hkind, hself, ← hbucket]
      rfl

/-- What `hf22` leaves of the account's capacity, before the time of its action is written. -/
structure Charged (s s' : Posting) (op : CommentOperation) (a a' : PosterObject) : Prop where
  voting : s.voting.SameWindows s'.voting
  medianProps : s'.medianProps = s.medianProps
  row : s.posters.find? op.author = some a
  self : s'.posters.find? op.author = some a'
  others : ∀ n, n ≠ op.author → s'.posters.find? n = s.posters.find? n

theorem charged_of_modifyPoster {op : CommentOperation} {a : PosterObject}
    {f : PosterObject → PosterObject} {hf : ∀ a, (f a).name = a.name}
    (hrow : s.posters.find? op.author = some a) :
    Charged s (s.modifyPoster op.author f hf) op a (f a) where
  voting := .refl _
  medianProps := rfl
  row := hrow
  self := by
    unfold modifyPoster
    dsimp only
    rw [Table.find?_modify_self, hrow]
    rfl
  others := by
    intro n hne
    unfold modifyPoster
    dsimp only
    rw [Table.find?_modify_of_ne]
    exact hne

theorem charged_of_same {op : CommentOperation} {a : PosterObject} (h : SameWindows s s')
    (hrow : s.posters.find? op.author = some a) : Charged s s' op a a where
  voting := h.voting
  medianProps := h.medianProps
  row := hrow
  self := by
    rw [h.posters]
    exact hrow
  others := by
    intro n _
    rw [h.posters]

theorem Charged.trans {op : CommentOperation} {a a' a'' : PosterObject} (h : Charged s s' op a a')
    (h' : Charged s' s'' op a' a'') : Charged s s'' op a a'' where
  voting := h.voting.trans h'.voting
  medianProps := h'.medianProps.trans h.medianProps
  row := h.row
  self := h'.self
  others := fun n hne => (h'.others n hne).trans (h.others n hne)

/-- A post takes from the capacity for posts, anything else from that for comments. -/
theorem charged_of_hf22 {op : CommentOperation} (h : s.hf22 op = .ok s') :
    ∃ s₁ a left, SameWindows s s₁ ∧
      (op.parentAuthor = rootPostParent →
        Takes s₁ .posts ⟨a.postsCapacity, a.lastPost⟩ left ∧
          Charged s₁ s' op a { a with postsCapacity := left }) ∧
      (op.parentAuthor ≠ rootPostParent →
        Takes s₁ .comments ⟨a.commentsCapacity, a.lastComment⟩ left ∧
          Charged s₁ s' op a { a with commentsCapacity := left }) := by
  simp only [hf22, bind_eq_ok] at h
  obtain ⟨s₁, hs₁, a, ha, h⟩ := h
  have hsame : SameWindows s s₁ := .onVoting (fun _ => .checkNegrepPostingBandwidth) hs₁
  simp only [getPoster, get_eq_ok] at ha
  split at h
  . next hpost =>
    simp only [bind_eq_ok] at h
    obtain ⟨x, hx, h⟩ := h
    refine ⟨s₁, a, x.getD a.postsCapacity, hsame, ?_, fun hne => absurd hpost hne⟩
    intro _
    refine ⟨@takes_of_windowCapacity _ .posts ⟨a.postsCapacity, a.lastPost⟩ _ hx, ?_⟩
    cases x with
    | none => exact charged_of_same (.makeUnlimitFee h) ha
    | some capacity =>
      rw [pure_eq_ok] at h
      exact h ▸ charged_of_modifyPoster ha
  . next hcomment =>
    simp only [bind_eq_ok] at h
    obtain ⟨x, hx, h⟩ := h
    refine ⟨s₁, a, x.getD a.commentsCapacity, hsame, fun heq => absurd heq hcomment, ?_⟩
    intro _
    refine ⟨@takes_of_windowCapacity _ .comments ⟨a.commentsCapacity, a.lastComment⟩ _ hx, ?_⟩
    cases x with
    | none => exact charged_of_same (.makeUnlimitFee h) ha
    | some capacity =>
      rw [pure_eq_ok] at h
      exact h ▸ charged_of_modifyPoster ha

theorem charged_of_touchPost {op : CommentOperation} {a : PosterObject}
    (hpost : op.parentAuthor = rootPostParent) (hrow : s.posters.find? op.author = some a) :
    Charged s (s.touchPoster op) op a { a with lastPost := s.headBlockTime } := by
  unfold touchPoster
  simp only [hpost, ↓reduceIte]
  exact charged_of_modifyPoster hrow

theorem charged_of_touchComment {op : CommentOperation} {a : PosterObject}
    (hcomment : op.parentAuthor ≠ rootPostParent) (hrow : s.posters.find? op.author = some a) :
    Charged s (s.touchPoster op) op a { a with lastComment := s.headBlockTime } := by
  unfold touchPoster
  simp only [hcomment, ↓reduceIte]
  exact charged_of_modifyPoster hrow

theorem acts_of_newComment {op : CommentOperation} {parent : Option Voting.CommentObject}
    (h : s.newComment op parent = .ok s') : Acts s s' op.kind op.author := by
  simp only [newComment, calcRewardWeight, bind_eq_ok, Prod.exists] at h
  obtain ⟨s₃, rewardWeight, ⟨s₂, hs₂, hs₃⟩, h⟩ := h
  have hband := (SameWindows.getBandwidth s op.author).rests
  obtain ⟨s₁, a, left, hsame, hposts, hcomments⟩ := charged_of_hf22 hs₂
  have hcreate := (SameWindows.createComment h).rests
  refine Acts.before (hband.trans hsame.rests) (Acts.after ?_ hcreate)
  have hcalculate := SameWindows.calculate hs₃
  unfold CommentOperation.kind
  split
  . next hpost =>
    obtain ⟨htakes, hcharged⟩ := hposts hpost
    have hcharged := hcharged.trans (charged_of_same hcalculate hcharged.self)
    have htouched := hcharged.trans (charged_of_touchPost hpost hcharged.self)
    refine acts_of_row htouched.voting htouched.medianProps htouched.row htouched.self
      htouched.others (fun _ => rfl) ?_ htakes ?_
    . intro kind' hne
      cases kind' with
      | posts => exact absurd rfl hne
      | comments =>
        unfold bucket?
        dsimp only
        rw [htouched.self, htouched.row]
        rfl
      | votes =>
        unfold bucket? Voting.lastVoteTime
        dsimp only
        rw [htouched.voting.votingCapacity, htouched.voting.staking]
    . unfold Posting.headBlockTime Voting.headBlockTime
      rw [hcharged.voting.staking]
  . next hcomment =>
    obtain ⟨htakes, hcharged⟩ := hcomments hcomment
    have hcharged := hcharged.trans (charged_of_same hcalculate hcharged.self)
    have htouched := hcharged.trans (charged_of_touchComment hcomment hcharged.self)
    refine acts_of_row htouched.voting htouched.medianProps htouched.row htouched.self
      htouched.others (fun _ => rfl) ?_ htakes ?_
    . intro kind' hne
      cases kind' with
      | comments => exact absurd rfl hne
      | posts =>
        unfold bucket?
        dsimp only
        rw [htouched.self, htouched.row]
        rfl
      | votes =>
        unfold bucket? Voting.lastVoteTime
        dsimp only
        rw [htouched.voting.votingCapacity, htouched.voting.staking]
    . unfold Posting.headBlockTime Voting.headBlockTime
      rw [hcharged.voting.staking]

theorem acts_of_comment {op : CommentOperation}
    (hnew : s.voting.findCommentByPerm op.author op.hashlink = none) (h : s.comment op = .ok s') :
    Acts s s' op.kind op.author := by
  simp only [comment, bind_eq_ok, Prod.exists] at h
  obtain ⟨-, -, _, -, -, -, s₁, parent, hs₁, h⟩ := h
  rw [hnew] at h
  exact (acts_of_newComment h).before (SameWindows.findParent hs₁).rests

theorem rests_of_editComment {op : CommentOperation} {c : Voting.CommentObject}
    (hfound : s.voting.findCommentByPerm op.author op.hashlink = some c)
    (h : s.comment op = .ok s') : Rests s s' := by
  simp only [comment, bind_eq_ok, Prod.exists] at h
  obtain ⟨-, -, _, -, -, -, s₁, parent, hs₁, h⟩ := h
  rw [hfound] at h
  exact (SameWindows.findParent hs₁).rests.trans (SameWindows.editComment h).rests

/-- The capacity of a vote is used, and then the vote is cast. -/
theorem acts_of_useVotingCapacity {name : AccountName} {voting voting' : Voting}
    (huse : s.voting.useVotingCapacity name = .ok voting) (hvoted : voting.Voted voting' name) :
    Acts s { s with voting := voting' } .votes name := by
  obtain ⟨capacity, last, left, huses, hleft⟩ := Voting.uses_of_useVotingCapacity huse
  have htime : voting.headBlockTime = s.headBlockTime := by
    unfold Voting.headBlockTime
    rw [huses.staking]
    rfl
  have hlastVote : voting.lastVoteTime = s.voting.lastVoteTime := by
    funext other
    unfold Voting.lastVoteTime
    rw [huses.staking]
  have hmedian := hvoted.medianProps.trans huses.medianProps
  constructor
  . exact hvoted.headBlockTime.trans htime
  . funext kind
    unfold window
    rw [hmedian]
  . funext kind
    unfold perWindow
    rw [hmedian]
  . intro kind' name' hne
    cases kind' with
    | posts => rfl
    | comments => rfl
    | votes =>
      have hname : name' ≠ name := fun heq => hne ⟨rfl, heq⟩
      unfold bucket?
      dsimp only
      rw [hvoted.votingCapacity, huses.others name' hname, hvoted.lastVoteTime_of_ne hname,
        hlastVote]
  . have hlast : voting.lastVoteTime name = some last := by
      rw [hlastVote]
      exact huses.last
    refine ⟨⟨capacity, last⟩, left, ?_, ?_, ?_⟩
    . unfold bucket?
      dsimp only
      rw [huses.capacity, huses.last]
      rfl
    . rcases hleft with ⟨hlt, rfl⟩ | hfree
      . exact .paid hlt
      . exact .free hfree
    . unfold bucket?
      dsimp only
      rw [hvoted.votingCapacity, huses.left, hvoted.lastVoteTime_self hlast, htime]
      rfl

/-- The vote is on a comment that has been paid out, and not one of the consensus any more. -/
def Archived (s : Posting) (op : VoteOperation) : Prop :=
  ∃ c ∈ s.voting.findCommentByPerm op.author op.hashlink, c.cashoutTime = maxTimePoint

instance (op : VoteOperation) : Decidable (s.Archived op) :=
  inferInstanceAs (Decidable (∃ c ∈ s.voting.findCommentByPerm op.author op.hashlink, _))

theorem onVoting_eq_ok {f : Voting → Result Voting} :
    s.onVoting f = .ok s' ↔ ∃ voting, f s.voting = .ok voting ∧ { s with voting := voting } = s' := by
  simp only [onVoting, bind_eq_ok, pure_eq_ok]

theorem rests_of_voting {voting : Voting} (h : s.voting.SameWindows voting) :
    Rests s { s with voting := voting } :=
  SameWindows.rests ⟨h, rfl, rfl⟩

theorem rests_of_archivedVote {op : VoteOperation} (hlate : s.Archived op)
    (h : s.vote op = .ok s') : Rests s s' := by
  obtain ⟨c, hc, hcashout⟩ := hlate
  obtain ⟨voting, hvoting, rfl⟩ := onVoting_eq_ok.mp h
  simp only [Voting.vote, bind_eq_ok] at hvoting
  obtain ⟨-, -, -, -, voter, -, -, -, -, -, -, -, v₁, hv₁, v₂, hv₂, hvoting⟩ := hvoting
  have hc : s.voting.findCommentByPerm op.author op.hashlink = some c := hc
  simp only [hc, hcashout, ↓reduceIte, reduceCtorEq, false_and, pure_eq_ok] at hv₂ hvoting
  subst hv₂
  have hnegrep := Voting.SameWindows.checkNegrepPostingBandwidth hv₁
  apply rests_of_voting (hnegrep.trans ?_)
  unfold Voting.archivedVote at hvoting
  split at hvoting
  . have hvote := Voting.SameWindows.createVote hvoting
    exact ⟨hvote.votingCapacity, hvote.staking, hvote.medianProps⟩
  . rw [pure_eq_ok] at hvoting
    subst hvoting
    exact ⟨rfl, rfl, rfl⟩

theorem acts_of_vote {op : VoteOperation} (hearly : ¬s.Archived op) (h : s.vote op = .ok s') :
    Acts s s' .votes op.voter := by
  obtain ⟨voting, hvoting, rfl⟩ := onVoting_eq_ok.mp h
  simp only [Voting.vote, bind_eq_ok] at hvoting
  obtain ⟨-, -, -, -, voter, -, -, -, -, -, -, -, v₁, hv₁, v₂, hv₂, hvoting⟩ := hvoting
  have hprepared : s.voting.SameWindows v₂ := by
    apply (Voting.SameWindows.checkNegrepPostingBandwidth hv₁).trans
    split at hv₂
    . exact .payUnwantedOperation hv₂
    . rw [pure_eq_ok] at hv₂
      exact hv₂ ▸ .refl v₁
  have hacts : ∀ v₃, v₂.useVotingCapacity op.voter = .ok v₃ → v₃.Voted voting op.voter →
      Acts s { s with voting := voting } .votes op.voter := by
    intro v₃ huse hvoted
    exact (acts_of_useVotingCapacity (s := { s with voting := v₂ }) huse hvoted).before
      (rests_of_voting hprepared)
  split at hvoting
  . simp only [bind_eq_ok] at hvoting
    obtain ⟨v₃, hv₃, _, -, power, -, hvoting⟩ := hvoting
    exact hacts v₃ hv₃ (.voteForAccount hvoting)
  . next c hc =>
    rw [if_neg fun hcashout => hearly ⟨c, hc, hcashout⟩] at hvoting
    simp only [bind_eq_ok] at hvoting
    obtain ⟨v₃, hv₃, _, -, power, -, hvoting⟩ := hvoting
    split at hvoting
    . exact hacts v₃ hv₃ (.firstVote hvoting)
    . exact hacts v₃ hv₃ (.changeVote hvoting)

end acts

end Posting

end Golos
