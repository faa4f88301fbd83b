import Mathlib.Data.List.Basic
import Mathlib.Data.Nat.ModEq

/-!
This module contains coders of byte streams that keep a state from one piece to the next, what it
means that one coder inverts the other however the stream is cut into whole blocks, reading from a
stream in pieces, and the chaining of blocks, whose coders are of this kind.
-/

namespace BlockStream

variable {σ τ α ε : Type}

/-- What a coder makes of the pieces of a stream, one after the other. -/
def codeAll (code : σ → List α → σ × List α) : σ → List (List α) → List α
  | _, [] => []
  | s, piece :: rest => (code s piece).2 ++ codeAll code (code s piece).1 rest

/-- The pieces hold whole blocks of `n`. -/
def Whole (n : Nat) (pieces : List (List α)) : Prop :=
  ∀ piece ∈ pieces, n ∣ piece.length

theorem Whole.cons {n : Nat} {piece : List α} {pieces : List (List α)} (h : n ∣ piece.length)
    (hp : Whole n pieces) : Whole n (piece :: pieces) :=
  List.forall_mem_cons.mpr ⟨h, hp⟩

theorem Whole.dvd_flatten {n : Nat} {pieces : List (List α)} (h : Whole n pieces) :
    n ∣ pieces.flatten.length := by
  induction pieces with
  | nil => simp
  | cons piece pieces ih =>
    obtain ⟨hpiece, hrest⟩ := List.forall_mem_cons.mp h
    rw [List.flatten_cons, List.length_append]
    exact Nat.dvd_add hpiece (ih hrest)

/-- The decoder from `t` gives back what the encoder was given from `s` on, however both streams are
cut into whole blocks of `n`, and neither changes the length of a piece. -/
structure Inverts (n : Nat) (encode : σ → List α → σ × List α) (decode : τ → List α → τ × List α)
    (s : σ) (t : τ) : Prop where
  length_encode : ∀ s piece, n ∣ piece.length → (encode s piece).2.length = piece.length
  length_decode : ∀ t piece, n ∣ piece.length → (decode t piece).2.length = piece.length
  decode_encode : ∀ sent pieces, Whole n sent → Whole n pieces →
    pieces.flatten = codeAll encode s sent → codeAll decode t pieces = sent.flatten

/-- `plain` is what the decoder will make of the stream `wire` that lies ahead of it. -/
def Ahead (n : Nat) (decode : τ → List α → τ × List α) (t : τ) (wire plain : List α) : Prop :=
  n ∣ wire.length ∧
  ∀ pieces, Whole n pieces → pieces.flatten = wire → codeAll decode t pieces = plain

theorem length_codeAll {n : Nat} {code : σ → List α → σ × List α}
    (hlen : ∀ s piece, n ∣ piece.length → (code s piece).2.length = piece.length) (s : σ)
    {pieces : List (List α)} (hp : Whole n pieces) :
    (codeAll code s pieces).length = pieces.flatten.length := by
  induction pieces generalizing s with
  | nil => rfl
  | cons piece rest ih =>
    obtain ⟨hpiece, hrest⟩ := List.forall_mem_cons.mp hp
    rw [codeAll, List.length_append, hlen s piece hpiece, ih _ hrest, List.flatten_cons]
    rw [List.length_append]

theorem codeAll_append (code : σ → List α → σ × List α) (s : σ) (xs ys : List (List α)) :
    codeAll code s (xs ++ ys) =
      codeAll code s xs ++ codeAll code (xs.foldl (fun s x => (code s x).1) s) ys := by
  induction xs generalizing s with
  | nil => rfl
  | cons x xs ih => rw [List.cons_append, codeAll, ih, codeAll, List.foldl_cons, List.append_assoc]

theorem Whole.append {n : Nat} {xs ys : List (List α)} (hx : Whole n xs) (hy : Whole n ys) :
    Whole n (xs ++ ys) :=
  List.forall_mem_append.mpr ⟨hx, hy⟩

theorem Inverts.ahead {n : Nat} {encode : σ → List α → σ × List α}
    {decode : τ → List α → τ × List α} {s : σ} {t : τ} (h : Inverts n encode decode s t)
    {sent : List (List α)} (hsent : Whole n sent) :
    Ahead n decode t (codeAll encode s sent) sent.flatten := by
  constructor
  . rw [length_codeAll h.length_encode s hsent]
    exact hsent.dvd_flatten
  . intro pieces hpieces hflat
    exact h.decode_encode sent pieces hsent hpieces hflat

namespace Ahead

variable {n : Nat} {decode : τ → List α → τ × List α} {t : τ} {wire plain : List α}

theorem length_eq (h : Ahead n decode t wire plain)
    (hlen : ∀ t piece, n ∣ piece.length → (decode t piece).2.length = piece.length) :
    plain.length = wire.length := by
  have hw : Whole n [wire] := by
    intro piece hpiece
    rw [List.mem_singleton.mp hpiece]
    exact h.1
  rw [← h.2 [wire] hw (by simp), length_codeAll hlen t hw]
  simp

/-- Whole blocks taken off the stream decode to the beginning of what lies ahead. -/
theorem decode_take (h : Ahead n decode t wire plain)
    (hlen : ∀ t piece, n ∣ piece.length → (decode t piece).2.length = piece.length)
    {k : Nat} (hk : n ∣ k) (hle : k ≤ wire.length) :
    (decode t (wire.take k)).2 = plain.take k ∧
    Ahead n decode (decode t (wire.take k)).1 (wire.drop k) (plain.drop k) := by
  have htake : (wire.take k).length = k := by
    rw [List.length_take]
    omega
  have hblock : n ∣ (wire.take k).length := by rwa [htake]
  have hdec : (decode t (wire.take k)).2.length = k := by rw [hlen _ _ hblock, htake]
  have hdrop : n ∣ (wire.drop k).length := by
    rw [List.length_drop]
    exact Nat.dvd_sub h.1 hk
  have hall : ∀ pieces, Whole n pieces → pieces.flatten = wire.drop k →
      (decode t (wire.take k)).2 ++ codeAll decode (decode t (wire.take k)).1 pieces = plain := by
    intro pieces hpieces hflat
    apply h.2 (wire.take k :: pieces) (hpieces.cons hblock)
    rw [List.flatten_cons, hflat, List.take_append_drop]
  have hone := hall [wire.drop k] (Whole.cons hdrop (by simp [Whole])) (by simp)
  refine ⟨?_, hdrop, ?_⟩
  . rw [← hone, List.take_left' hdec]
  . intro pieces hpieces hflat
    rw [← hall pieces hpieces hflat, List.drop_left' hdec]

end Ahead

/-- Read until `len` elements are there. As `readsome` gives at least one and at most as many as it is
asked for, `len` is fuel enough. -/
def readExactly (readsome : Nat → σ → Except ε (List α × σ)) :
    (fuel len : Nat) → σ → Except ε (List α × σ)
  | _, 0, s => .ok ([], s)
  | 0, _ + 1, s => .ok ([], s)
  | fuel + 1, len + 1, s => do
    let (xs, s) ← readsome (len + 1) s
    let (ys, s) ← readExactly readsome fuel (len + 1 - xs.length) s
    pure (xs ++ ys, s)

/-- Where each call gives the beginning of what lies ahead, in whole blocks, so does the whole. -/
theorem readExactly_eq_ok {readsome : Nat → σ → Except ε (List α × σ)} {n : Nat}
    {Stream : σ → List α → Prop}
    (hsome : ∀ s stream len, Stream s stream → 0 < len → n ∣ len → len ≤ stream.length →
      ∃ k s', 0 < k ∧ k ≤ len ∧ n ∣ k ∧ readsome len s = .ok (stream.take k, s') ∧
        Stream s' (stream.drop k))
    {fuel len : Nat} {s : σ} {stream : List α} (hs : Stream s stream) (hn : n ∣ len)
    (hle : len ≤ stream.length) (hfuel : len ≤ fuel) :
    ∃ s', readExactly readsome fuel len s = .ok (stream.take len, s') ∧
      Stream s' (stream.drop len) := by
  induction fuel generalizing len s stream with
  | zero =>
    obtain rfl : len = 0 := by omega
    exact ⟨s, by simp [readExactly], by simpa using hs⟩
  | succ fuel ih =>
    cases len with
    | zero => exact ⟨s, by simp [readExactly], by simpa using hs⟩
    | succ len =>
      obtain ⟨k, s', hpos, hk, hdvd, hread, hnext⟩ := hsome s stream (len + 1) hs (by omega) hn hle
      have htake : (stream.take k).length = k := by
        rw [List.length_take]
        omega
      have hleft : len + 1 - k ≤ (stream.drop k).length := by
        rw [List.length_drop]
        omega
      obtain ⟨s'', hrest, hlast⟩ := ih hnext (Nat.dvd_sub hn hdvd) hleft (by omega)
      refine ⟨s'', ?_, ?_⟩
      . rw [readExactly, hread]
        simp only [bind, Except.bind, pure, Except.pure]
        rw [htake, hrest]
        simp only [Except.ok.injEq, Prod.mk.injEq, and_true]
        rw [← List.take_add, Nat.add_sub_cancel' hk]
      . rw [List.drop_drop, Nat.add_sub_cancel' hk] at hlast
        exact hlast

/-- What a coder makes of two runs of whole blocks does not depend on the cut between them. -/
def Blockwise (n : Nat) (code : σ → List α → σ × List α) : Prop :=
  ∀ s, (code s []).2 = [] ∧
    ∀ xs ys, n ∣ xs.length → n ∣ ys.length →
      (code s (xs ++ ys)).2 = (code s xs).2 ++ (code (code s xs).1 ys).2

theorem Blockwise.codeAll_eq {n : Nat} {code : σ → List α → σ × List α} (h : Blockwise n code)
    (s : σ) {pieces : List (List α)} (hp : Whole n pieces) :
    codeAll code s pieces = (code s pieces.flatten).2 := by
  induction pieces generalizing s with
  | nil => exact (h s).1.symm
  | cons piece rest ih =>
    obtain ⟨hpiece, hrest⟩ := List.forall_mem_cons.mp hp
    rw [codeAll, ih _ hrest, List.flatten_cons]
    rw [(h s).2 piece rest.flatten hpiece (Whole.dvd_flatten hrest)]

/-- Every block is mixed with the coded block before it and then locked. -/
def chainEncode (mix : List α → List α → List α) (lock : List α → List α) (n : Nat) :
    (count : Nat) → (prev xs : List α) → List α × List α
  | 0, prev, _ => (prev, [])
  | count + 1, prev, xs =>
    let block := lock (mix (xs.take n) prev)
    let (last, rest) := chainEncode mix lock n count block (xs.drop n)
    (last, block ++ rest)

def chainDecode (mix : List α → List α → List α) (unlock : List α → List α) (n : Nat) :
    (count : Nat) → (prev xs : List α) → List α × List α
  | 0, prev, _ => (prev, [])
  | count + 1, prev, xs =>
    let (last, rest) := chainDecode mix unlock n count (xs.take n) (xs.drop n)
    (last, mix (unlock (xs.take n)) prev ++ rest)

section Chain

variable {mix : List α → List α → List α} {lock unlock : List α → List α} {n : Nat}

theorem length_chainEncode (hmix : ∀ x p, (mix x p).length = x.length)
    (hlock : ∀ x, (lock x).length = x.length) {count : Nat} {prev xs : List α}
    (h : count * n ≤ xs.length) :
    (chainEncode mix lock n count prev xs).2.length = count * n := by
  induction count generalizing prev xs with
  | zero => simp [chainEncode]
  | succ count ih =>
    rw [Nat.add_mul, Nat.one_mul] at h
    simp only [chainEncode, List.length_append, hlock, hmix, List.length_take]
    rw [ih (by rw [List.length_drop]; omega), Nat.add_mul]
    omega

theorem length_chainDecode (hmix : ∀ x p, (mix x p).length = x.length)
    (hunlock : ∀ x, (unlock x).length = x.length) {count : Nat} {prev xs : List α}
    (h : count * n ≤ xs.length) :
    (chainDecode mix unlock n count prev xs).2.length = count * n := by
  induction count generalizing prev xs with
  | zero => simp [chainDecode]
  | succ count ih =>
    rw [Nat.add_mul, Nat.one_mul] at h
    simp only [chainDecode, List.length_append, hunlock, hmix, List.length_take]
    rw [ih (by rw [List.length_drop]; omega), Nat.add_mul]
    omega

theorem chainEncode_append {count more : Nat} {prev xs ys : List α} (h : xs.length = count * n) :
    (chainEncode mix lock n (count + more) prev (xs ++ ys)).2 =
      (chainEncode mix lock n count prev xs).2 ++
        (chainEncode mix lock n more (chainEncode mix lock n count prev xs).1 ys).2 := by
  induction count generalizing prev xs with
  | zero =>
    obtain rfl : xs = [] := List.eq_nil_of_length_eq_zero (by omega)
    simp [chainEncode]
  | succ count ih =>
    rw [Nat.add_mul, Nat.one_mul] at h
    have hdrop : (xs.drop n).length = count * n := by
      rw [List.length_drop]
      omega
    rw [Nat.add_right_comm]
    simp only [chainEncode]
    rw [List.take_append_of_le_length (by omega), List.drop_append_of_le_length (by omega)]
    rw [ih hdrop, List.append_assoc]

theorem chainDecode_append {count more : Nat} {prev xs ys : List α} (h : xs.length = count * n) :
    (chainDecode mix unlock n (count + more) prev (xs ++ ys)).2 =
      (chainDecode mix unlock n count prev xs).2 ++
        (chainDecode mix unlock n more (chainDecode mix unlock n count prev xs).1 ys).2 := by
  induction count generalizing prev xs with
  | zero =>
    obtain rfl : xs = [] := List.eq_nil_of_length_eq_zero (by omega)
    simp [chainDecode]
  | succ count ih =>
    rw [Nat.add_mul, Nat.one_mul] at h
    have hdrop : (xs.drop n).length = count * n := by
      rw [List.length_drop]
      omega
    rw [Nat.add_right_comm]
    simp only [chainDecode]
    rw [List.take_append_of_le_length (by omega), List.drop_append_of_le_length (by omega)]
    rw [ih hdrop, List.append_assoc]

theorem chainDecode_chainEncode (hmix : ∀ x p, (mix x p).length = x.length)
    (hmm : ∀ x p, mix (mix x p) p = x) (hlock : ∀ x, (lock x).length = x.length)
    (hunlock : ∀ x, unlock (lock x) = x) {count : Nat} {prev xs : List α}
    (h : xs.length = count * n) :
    (chainDecode mix unlock n count prev (chainEncode mix lock n count prev xs).2).2 = xs := by
  induction count generalizing prev xs with
  | zero =>
    obtain rfl : xs = [] := List.eq_nil_of_length_eq_zero (by omega)
    rfl
  | succ count ih =>
    rw [Nat.add_mul, Nat.one_mul] at h
    have hdrop : (xs.drop n).length = count * n := by
      rw [List.length_drop]
      omega
    have hblock : (lock (mix (xs.take n) prev)).length = n := by
      rw [hlock, hmix, List.length_take]
      omega
    simp only [chainEncode, chainDecode]
    rw [List.take_left' hblock, List.drop_left' hblock, ih hdrop, hunlock, hmm]
    exact List.take_append_drop n xs

/-- The coders of a chain, the state being the coded block before. -/
def chainEncoder (mix : List α → List α → List α) (lock : List α → List α) (n : Nat)
    (prev xs : List α) : List α × List α :=
  chainEncode mix lock n (xs.length / n) prev xs

def chainDecoder (mix : List α → List α → List α) (unlock : List α → List α) (n : Nat)
    (prev xs : List α) : List α × List α :=
  chainDecode mix unlock n (xs.length / n) prev xs

theorem blockwise_chainEncoder : Blockwise n (chainEncoder mix lock n) := by
  intro prev
  constructor
  . simp [chainEncoder, chainEncode]
  . intro xs ys hxs hys
    unfold chainEncoder
    rw [List.length_append, Nat.add_div_of_dvd_right hxs]
    exact chainEncode_append (Nat.div_mul_cancel hxs).symm

theorem blockwise_chainDecoder : Blockwise n (chainDecoder mix unlock n) := by
  intro prev
  constructor
  . simp [chainDecoder, chainDecode]
  . intro xs ys hxs hys
    unfold chainDecoder
    rw [List.length_append, Nat.add_div_of_dvd_right hxs]
    exact chainDecode_append (Nat.div_mul_cancel hxs).symm

/-- Chaining from one block on both sides is inverted for any cut into whole blocks. -/
theorem inverts_chain (hmix : ∀ x p, (mix x p).length = x.length)
    (hmm : ∀ x p, mix (mix x p) p = x) (hlock : ∀ x, (lock x).length = x.length)
    (hlen : ∀ x, (unlock x).length = x.length) (hunlock : ∀ x, unlock (lock x) = x)
    (prev : List α) :
    Inverts n (chainEncoder mix lock n) (chainDecoder mix unlock n) prev prev where
  length_encode := by
    intro s piece h
    unfold chainEncoder
    rw [length_chainEncode hmix hlock (Nat.le_of_eq (Nat.div_mul_cancel h)), Nat.div_mul_cancel h]
  length_decode := by
    intro t piece h
    unfold chainDecoder
    rw [length_chainDecode hmix hlen (Nat.le_of_eq (Nat.div_mul_cancel h)), Nat.div_mul_cancel h]
  decode_encode := by
    intro sent pieces hsent hpieces hflat
    have hdvd := hsent.dvd_flatten
    have hcoded : codeAll (chainEncoder mix lock n) prev sent = _ :=
      blockwise_chainEncoder.codeAll_eq prev hsent
    rw [blockwise_chainDecoder.codeAll_eq prev hpieces, hflat, hcoded]
    unfold chainDecoder chainEncoder
    rw [length_chainEncode hmix hlock (Nat.le_of_eq (Nat.div_mul_cancel hdvd)), Nat.div_mul_cancel hdvd]
    exact chainDecode_chainEncode hmix hmm hlock hunlock (Nat.div_mul_cancel hdvd).symm

end Chain

end BlockStream
