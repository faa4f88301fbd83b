import Mathlib.Data.Nat.Pairing
import Golos.Chain.Impl.Apply
import Golos.Lib.PairTree

/-!
This module contains the Merkle root of the transactions of a block, which is computed in place in
one vector, and what it computes.
-/

namespace Golos

/-- The functions that hash, from outside of the chain. -/
structure MerkleHash (δ χ : Type) where
  /-- `signed_transaction::merkle_digest` -/
  merkleDigest : SignedTransaction → δ
  /-- `digest_type::hash` of a pair -/
  hash : δ → δ → δ
  /-- `checksum_type::hash` -/
  checksum : δ → χ
  /-- `checksum_type()` -/
  empty : χ

namespace MerkleHash

variable {δ χ : Type} (m : MerkleHash δ χ)

/--
The first `turns` turns of the loop over pairs, of which the one that begins with `k` begins with
`i = 2 * k`. There is no result when a turn reads behind the end of the vector.
-/
def hashPairs (ids : List δ) : Nat → Option (List δ)
  | 0 => some ids
  | k + 1 => do
    let ids ← hashPairs ids k
    let left ← ids[2 * k]?
    let right ← ids[2 * k + 1]?
    pure (ids.set k (m.hash left right))

/-- The body of the loop over levels, and the number of hashes that it leaves. -/
def hashLevel (ids : List δ) (currentNumberOfHashes : Nat) : Option (List δ × Nat) := do
  let k := currentNumberOfHashes / 2
  let iMax := 2 * k
  let ids ← m.hashPairs ids k
  if currentNumberOfHashes % 2 = 1 then
    let last ← ids[iMax]?
    pure (ids.set k last, k + 1)
  else
    pure (ids, k)

/-- The loop over levels, at most `fuel` times. -/
def hashLevels : Nat → List δ → Nat → Option (List δ)
  | 0, ids, currentNumberOfHashes => if 1 < currentNumberOfHashes then none else some ids
  | fuel + 1, ids, currentNumberOfHashes =>
    if 1 < currentNumberOfHashes then do
      let (ids, currentNumberOfHashes) ← m.hashLevel ids currentNumberOfHashes
      hashLevels fuel ids currentNumberOfHashes
    else
      some ids

/-- Each level has fewer hashes than the one before. -/
def calculateMerkleRoot (transactions : List SignedTransaction) : Option χ :=
  if transactions.length = 0 then
    some m.empty
  else do
    let ids := transactions.map m.merkleDigest
    let ids ← m.hashLevels ids.length ids ids.length
    let root ← ids[0]?
    pure (m.checksum root)

/-- What the root is: the transactions hashed in pairs, level by level. -/
def merkleRoot (transactions : List SignedTransaction) : χ :=
  match PairTree.root m.hash (transactions.map m.merkleDigest) with
  | none => m.empty
  | some root => m.checksum root

variable {m}

section level

/-- After some turns the pairs of the level are hashed as far, and nothing behind has changed. -/
structure Paired (m : MerkleHash δ χ) (ids ids' : List δ) (turns : Nat) : Prop where
  length : ids'.length = ids.length
  rest : ∀ p, turns ≤ p → ids'[p]? = ids[p]?
  hashed : ∀ p a b, p < turns → ids[2 * p]? = some a → ids[2 * p + 1]? = some b →
    ids'[p]? = some (m.hash a b)

/-- A turn reads behind all that the turns before have written. -/
theorem hashPairs_eq_some (ids : List δ) (turns : Nat) (h : 2 * turns ≤ ids.length) :
    ∃ ids', m.hashPairs ids turns = some ids' ∧ Paired m ids ids' turns := by
  induction turns with
  | zero => exact ⟨ids, rfl, rfl, fun _ _ => rfl, fun _ _ _ hlt => absurd hlt (Nat.not_lt_zero _)⟩
  | succ k ih =>
    obtain ⟨ids', hids', hpaired⟩ := ih (by omega)
    have hleft : ids[2 * k]? = some ids[2 * k] := List.getElem?_eq_getElem _
    have hright : ids[2 * k + 1]? = some ids[2 * k + 1] := List.getElem?_eq_getElem _
    refine ⟨ids'.set k (m.hash ids[2 * k] ids[2 * k + 1]), ?_, ?_, ?_, ?_⟩
    . rw [hashPairs, hids', Option.bind_eq_bind, Option.bind_some, hpaired.rest _ (by omega),
        hpaired.rest _ (by omega), hleft, hright]
      rfl
    . rw [List.length_set, hpaired.length]
    . intro p hp
      rw [List.getElem?_set_ne (by omega)]
      exact hpaired.rest p (by omega)
    . intro p a b hp ha hb
      by_cases heq : p = k
      . subst heq
        obtain rfl := Option.some.inj (hleft.symm.trans ha)
        obtain rfl := Option.some.inj (hright.symm.trans hb)
        rw [List.getElem?_set_self (by rw [hpaired.length]; omega)]
      . rw [List.getElem?_set_ne (Ne.symm heq)]
        exact hpaired.hashed p a b (by omega) ha hb

theorem paired_of_hashPairs {ids ids' : List δ} {turns : Nat} (h : 2 * turns ≤ ids.length)
    (hids' : m.hashPairs ids turns = some ids') : Paired m ids ids' turns := by
  obtain ⟨ids'', hids'', hpaired⟩ := hashPairs_eq_some (m := m) ids turns h
  obtain rfl := Option.some.inj (hids''.symm.trans hids')
  exact hpaired

/-- The front of the vector holds the next level. -/
theorem Paired.take {ids ids' : List δ} {n : Nat} (hn : n ≤ ids.length)
    (h : Paired m ids ids' (n / 2)) {p : Nat} (hp : p < n / 2) :
    ids'[p]? = (PairTree.pairUp m.hash (ids.take n))[p]? := by
  have ha : ids[2 * p]? = some ids[2 * p] := List.getElem?_eq_getElem _
  have hb : ids[2 * p + 1]? = some ids[2 * p + 1] := List.getElem?_eq_getElem _
  rw [h.hashed p _ _ hp ha hb, PairTree.getElem?_pairUp]
  . rw [List.getElem?_take_of_lt (by omega), ha]
  . rw [List.getElem?_take_of_lt (by omega), hb]

theorem hashLevel_eq_some {ids : List δ} {n : Nat} (hn : n ≤ ids.length) :
    ∃ ids', m.hashLevel ids n = some (ids', (n + 1) / 2) ∧ ids'.length = ids.length ∧
      ids'.take ((n + 1) / 2) = PairTree.pairUp m.hash (ids.take n) := by
  obtain ⟨ids', hids', hpaired⟩ := hashPairs_eq_some (m := m) ids (n / 2) (by omega)
  have hlength : (ids.take n).length = n := by
    rw [List.length_take]
    omega
  unfold hashLevel
  dsimp only
  rw [hids', Option.bind_eq_bind, Option.bind_some]
  by_cases hodd : n % 2 = 1
  . have hhalf : (n + 1) / 2 = n / 2 + 1 := by omega
    have hlast : ids[2 * (n / 2)]? = some ids[2 * (n / 2)] := List.getElem?_eq_getElem _
    refine ⟨ids'.set (n / 2) ids[2 * (n / 2)], ?_, ?_, ?_⟩
    . rw [if_pos hodd, hpaired.rest _ (by omega), hlast, hhalf]
      rfl
    . rw [List.length_set, hpaired.length]
    . apply List.ext_getElem?
      intro p
      by_cases hp : p < n / 2
      . rw [List.getElem?_take_of_lt (by omega), List.getElem?_set_ne (by omega)]
        exact hpaired.take hn hp
      . by_cases heq : p = n / 2
        . subst heq
          rw [List.getElem?_take_of_lt (by omega),
            List.getElem?_set_self (by rw [hpaired.length]; omega),
            PairTree.getElem?_pairUp_last (by omega), List.getElem?_take_of_lt (by omega), hlast]
        . rw [List.getElem?_eq_none (by rw [List.length_take]; omega),
            List.getElem?_eq_none (by rw [PairTree.length_pairUp]; omega)]
  . have hhalf : (n + 1) / 2 = n / 2 := by omega
    refine ⟨ids', ?_, hpaired.length, ?_⟩
    . rw [if_neg hodd, hhalf]
      rfl
    . apply List.ext_getElem?
      intro p
      by_cases hp : p < n / 2
      . rw [List.getElem?_take_of_lt (by omega)]
        exact hpaired.take hn hp
      . rw [List.getElem?_eq_none (by rw [List.length_take]; omega),
          List.getElem?_eq_none (by rw [PairTree.length_pairUp]; omega)]

end level

section root

/-- The loop ends with the root of the level that it starts with. -/
theorem hashLevels_eq_some (fuel n : Nat) (ids : List δ) (hn : n ≤ ids.length) (hpos : 0 < n)
    (hfuel : n ≤ fuel + 1) :
    ∃ ids', m.hashLevels fuel ids n = some ids' ∧ ids'[0]? = PairTree.root m.hash (ids.take n) := by
  induction fuel generalizing n ids with
  | zero =>
    obtain rfl : n = 1 := by omega
    refine ⟨ids, rfl, ?_⟩
    match ids, hn with
    | a :: ids, _ => rw [List.take_succ_cons, List.take_zero, PairTree.root, List.getElem?_cons_zero]
  | succ fuel ih =>
    unfold hashLevels
    by_cases hmore : 1 < n
    . obtain ⟨ids₁, hids₁, hlength, htake⟩ := hashLevel_eq_some (m := m) hn
      obtain ⟨ids', hids', hroot⟩ :=
        ih ((n + 1) / 2) ids₁ (by omega) (by omega) (by omega)
      refine ⟨ids', ?_, ?_⟩
      . rw [if_pos hmore, hids₁]
        exact hids'
      . rw [hroot, htake, PairTree.root_pairUp]
    . obtain rfl : n = 1 := by omega
      refine ⟨ids, if_neg hmore, ?_⟩
      match ids, hn with
      | a :: ids, _ =>
        rw [List.take_succ_cons, List.take_zero, PairTree.root, List.getElem?_cons_zero]

theorem calculateMerkleRoot_eq_some (transactions : List SignedTransaction) :
    m.calculateMerkleRoot transactions = some (m.merkleRoot transactions) := by
  unfold calculateMerkleRoot merkleRoot
  split
  . next hnone =>
    rw [List.length_eq_zero_iff] at hnone
    subst hnone
    rw [List.map_nil, PairTree.root]
  . next hsome =>
    have hlength : (transactions.map m.merkleDigest).length = transactions.length :=
      List.length_map _
    obtain ⟨ids', hids', hroot⟩ := hashLevels_eq_some (m := m) _ _
      (transactions.map m.merkleDigest) (le_refl _) (by omega) (Nat.le_succ _)
    rw [List.take_length] at hroot
    dsimp only
    rw [hids', Option.bind_eq_bind, Option.bind_some, hroot]
    have hne : transactions.map m.merkleDigest ≠ [] := by
      intro hnil
      rw [List.map_eq_nil_iff] at hnil
      exact hsome (List.length_eq_zero_iff.mpr hnil)
    obtain ⟨root, hroot⟩ := PairTree.exists_root m.hash hne
    rw [hroot]
    rfl

/-- Lists of one length with one root have the same transactions. -/
theorem merkleRoot_injective (hdigest : Function.Injective m.merkleDigest)
    (hhash : Function.Injective2 m.hash) (hchecksum : Function.Injective m.checksum)
    {transactions transactions' : List SignedTransaction}
    (hlength : transactions.length = transactions'.length)
    (h : m.merkleRoot transactions = m.merkleRoot transactions') :
    transactions = transactions' := by
  by_cases hnone : transactions = []
  . rw [hnone, List.length_nil, eq_comm, List.length_eq_zero_iff] at hlength
    rw [hnone, hlength]
  . have hnone' : transactions' ≠ [] := by
      intro hnil
      rw [hnil, List.length_nil, List.length_eq_zero_iff] at hlength
      exact hnone hlength
    obtain ⟨root, hroot⟩ := PairTree.exists_root m.hash (l := transactions.map m.merkleDigest)
      (List.map_eq_nil_iff.not.mpr hnone)
    obtain ⟨root', hroot'⟩ := PairTree.exists_root m.hash (l := transactions'.map m.merkleDigest)
      (List.map_eq_nil_iff.not.mpr hnone')
    unfold merkleRoot at h
    rw [hroot, hroot'] at h
    apply List.map_injective_iff.mpr hdigest
    apply PairTree.root_injective hhash
    . rw [List.length_map, List.length_map, hlength]
    . rw [hroot, hroot', hchecksum h]

/--
The loops compute the root of the tree over the transactions; whatever a turn still has to read is
as the level began; and when nothing collides the root tells the transactions.
-/
theorem calculateMerkleRoot_correct (m : MerkleHash δ χ) :
    (∀ transactions, m.calculateMerkleRoot transactions = some (m.merkleRoot transactions)) ∧
      (∀ (ids ids' : List δ) (currentNumberOfHashes turns : Nat),
        currentNumberOfHashes ≤ ids.length → turns ≤ currentNumberOfHashes / 2 →
        m.hashPairs ids turns = some ids' → ∀ i, 2 * turns ≤ i → ids'[i]? = ids[i]?) ∧
      (Function.Injective m.merkleDigest → Function.Injective2 m.hash →
        Function.Injective m.checksum →
        ∀ transactions transactions', transactions.length = transactions'.length →
          m.calculateMerkleRoot transactions = m.calculateMerkleRoot transactions' →
          transactions = transactions') := by
  refine ⟨calculateMerkleRoot_eq_some, ?_, ?_⟩
  . intro ids ids' currentNumberOfHashes turns hlength hturns hids' i hi
    exact (paired_of_hashPairs (by omega) hids').rest i (by omega)
  . intro hdigest hhash hchecksum transactions transactions' hlength h
    rw [calculateMerkleRoot_eq_some, calculateMerkleRoot_eq_some, Option.some.injEq] at h
    exact merkleRoot_injective hdigest hhash hchecksum hlength h

/-- Numbers for digests, each of which tells what was hashed. -/
def pairing : MerkleHash Nat Nat where
  merkleDigest trx :=
    Nat.pair trx.refBlockNum <| Nat.pair trx.refBlockPrefix <| Nat.pair trx.expiration <|
      Nat.pair (Nat.pair trx.operations.size trx.operations.bytes)
        (Nat.pair trx.signatures.size trx.signatures.bytes)
  hash := Nat.pair
  checksum := id
  empty := 0

theorem pairing_injective : Function.Injective pairing.merkleDigest := by
  rintro ⟨num, pre, time, ⟨size, bytes⟩, ⟨size', bytes'⟩⟩ trx h
  simp only [pairing, Nat.pair_eq_pair] at h
  obtain ⟨rfl, rfl, rfl, ⟨rfl, rfl⟩, rfl, rfl⟩ := h
  rfl

theorem calculateMerkleRoot_correct_pairing :
    (∀ transactions,
        pairing.calculateMerkleRoot transactions = some (pairing.merkleRoot transactions)) ∧
      ∀ transactions transactions', transactions.length = transactions'.length →
        pairing.calculateMerkleRoot transactions = pairing.calculateMerkleRoot transactions' →
        transactions = transactions' := by
  have hcorrect := calculateMerkleRoot_correct pairing
  refine ⟨hcorrect.1, hcorrect.2.2 pairing_injective ?_ Function.injective_id⟩
  intro a a' b b' h
  exact Nat.pair_eq_pair.mp h

end root

end MerkleHash

end Golos
