import RkNand.Tools.Idblock

/-!
# The cipher of the boot block, for every key and block size

The states that `rc4` goes through with any key: a state is a permutation of the 256 byte values at
every round (`Shuffled`), and it depends on the key and on the number of rounds only.
-/

namespace RkNand.MkIdblock

open StreamCipher

/-! ## The states -/

/-- `list(range(256))`. -/
def identity : List UInt8 := (List.range 256).map UInt8.ofNat

/-- One round of the first loop of `rc4`, on `s` and `j`. -/
def scheduleRound (key : List UInt8) (st : List UInt8 × ℕ) (i : ℕ) : List UInt8 × ℕ :=
  let j := (st.2 + (st.1.getD i 0).toNat + (key.getD (i % key.length) 0).toNat) &&& 0xFF
  (swap st.1 i j, j)

/-- `s` and `j` after the first `n` rounds of the first loop. -/
def scheduleState (key : List UInt8) (n : ℕ) : List UInt8 × ℕ :=
  (List.range n).foldl (scheduleRound key) (identity, 0)

theorem rc4Schedule_eq (key : List UInt8) : rc4Schedule key = (scheduleState key 256).1 := rfl

theorem scheduleState_succ (key : List UInt8) (n : ℕ) :
    scheduleState key (n + 1) = scheduleRound key (scheduleState key n) n := by
  rw [scheduleState, List.range_succ, List.foldl_append]
  rfl

/-- What the second loop of `rc4` keeps after `n` bytes of data. -/
def streamState (key : List UInt8) (n : ℕ) : Rc4State :=
  (fun st => (rc4Next st).2)^[n] ⟨rc4Schedule key, 0, 0⟩

theorem streamState_succ (key : List UInt8) (n : ℕ) :
    streamState key (n + 1) = (rc4Next (streamState key n)).2 :=
  Function.iterate_succ_apply' _ _ _

/-- The subscript of the byte a round of the second loop adds, once `i`, `j` and `s` are new. -/
def Rc4State.out (st : Rc4State) : ℕ :=
  ((st.s.getD st.i 0).toNat + (st.s.getD st.j 0).toNat) &&& 0xFF

/-- The state that a byte of the data meets is that of its position. -/
theorem getElem?_rc4Keyed (data key : List UInt8) (k : ℕ) :
    (rc4Keyed data key)[k]? = data[k]?.map fun b =>
      b ^^^ (streamState key (k + 1)).s.getD (streamState key (k + 1)).out 0 := by
  rw [rc4Keyed, getElem?_xorStream, streamState_succ]
  rfl

/-! ## The state is a permutation -/

/-- `s` holds each of the 256 byte values once. -/
def Shuffled (s : List UInt8) : Prop := s.Perm identity

theorem Shuffled.length {s : List UInt8} (shuffled : Shuffled s) : s.length = 256 := by
  rw [List.Perm.length_eq shuffled, identity, List.length_map, List.length_range]

theorem and_0xFF_lt (n : ℕ) : n &&& 0xFF < 256 := Nat.and_lt_two_pow n (n := 8) (by decide)

theorem Shuffled.swap {s : List UInt8} (shuffled : Shuffled s) {i j : ℕ} (hi : i < 256)
    (hj : j < 256) : Shuffled (swap s i j) := by
  have hi' : i < s.length := by rw [shuffled.length]; exact hi
  have hj' : j < s.length := by rw [shuffled.length]; exact hj
  have step : (MkIdblock.swap s i j).Perm s := by
    rw [MkIdblock.swap, List.getD_eq_getElem _ _ hi', List.getD_eq_getElem _ _ hj']
    exact List.set_set_perm hi' hj'
  exact step.trans shuffled

/-- What holds of `s` and `j` throughout the first loop. -/
theorem scheduleState_shuffled (key : List UInt8) {n : ℕ} (rounds : n ≤ 256) :
    Shuffled (scheduleState key n).1 ∧ (scheduleState key n).2 < 256 := by
  induction n with
  | zero => exact ⟨List.Perm.refl _, Nat.zero_lt_succ _⟩
  | succ n ih =>
    have before := (ih (by omega)).1
    rw [scheduleState_succ]
    exact ⟨before.swap (by omega) (and_0xFF_lt _), and_0xFF_lt _⟩

theorem Rc4State.out_lt (st : Rc4State) : st.out < 256 := and_0xFF_lt _

/-- A state of the second loop whose subscripts are good ones. -/
structure Rc4State.Sound (st : Rc4State) : Prop where
  shuffled : Shuffled st.s
  i : st.i < 256
  j : st.j < 256
  out : st.out < 256

theorem Rc4State.Sound.start {s : List UInt8} (shuffled : Shuffled s) :
    Rc4State.Sound ⟨s, 0, 0⟩ where
  shuffled := shuffled
  i := Nat.zero_lt_succ _
  j := Nat.zero_lt_succ _
  out := Rc4State.out_lt _

theorem Rc4State.Sound.next {st : Rc4State} (sound : st.Sound) : (rc4Next st).2.Sound where
  shuffled := sound.shuffled.swap (and_0xFF_lt _) (and_0xFF_lt _)
  i := and_0xFF_lt _
  j := and_0xFF_lt _
  out := Rc4State.out_lt _

/-- What holds throughout the second loop. -/
theorem streamState_sound (key : List UInt8) (n : ℕ) : (streamState key n).Sound := by
  induction n with
  | zero =>
    have scheduled := (scheduleState_shuffled key (Nat.le_refl 256)).1
    rw [← rc4Schedule_eq] at scheduled
    rw [streamState, Function.iterate_zero_apply]
    exact .start scheduled
  | succ n ih =>
    rw [streamState_succ]
    exact ih.next

/-! ## The cipher is its own inverse -/

/-- Every subscript `rc4` uses with the key is inside the list it is used on, and the state is a
permutation of `0..255` at every round. -/
structure KeyStream (key : List UInt8) : Prop where
  schedule : ∀ n ≤ 256, Shuffled (scheduleState key n).1 ∧ (scheduleState key n).2 < 256
  subscript : ∀ i < 256, i % key.length < key.length
  stream : ∀ n, (streamState key n).Sound
  /-- The keystream depends on the key and the position only. -/
  data : ∀ data k, (rc4Keyed data key)[k]? = data[k]?.map fun b =>
    b ^^^ (streamState key (k + 1)).s.getD (streamState key (k + 1)).out 0

theorem keyStream_of_ne_nil {key : List UInt8} (nonempty : key ≠ []) : KeyStream key where
  schedule _ rounds := scheduleState_shuffled key rounds
  subscript _ _ := Nat.mod_lt _ (List.length_pos_of_ne_nil nonempty)
  stream := streamState_sound key
  data data k := getElem?_rc4Keyed data key k

theorem rc4_self_inverse (d : List UInt8) :
    (∀ size, 1 ≤ size → rc4BlocksOf (rc4BlocksOf d size) size = d ∧
      (rc4BlocksOf d size).length = d.length) ∧
    ∀ key, key ≠ [] → rc4Keyed (rc4Keyed d key) key = d ∧ KeyStream key := by
  refine ⟨fun size positive => ⟨?_, ?_⟩, fun key nonempty => ⟨?_, keyStream_of_ne_nil nonempty⟩⟩
  · exact rc4BlocksOf_rc4BlocksOf d positive
  · exact length_rc4BlocksOf d positive
  · exact rc4Keyed_rc4Keyed d key

/-- A block size that leaves a short last block, and a key of one byte. -/
theorem rc4_self_inverse_short :
    rc4BlocksOf (rc4BlocksOf [1, 2, 3, 4, 5] 2) 2 = [1, 2, 3, 4, 5] ∧
      rc4Keyed (rc4Keyed [1, 2, 3, 4, 5] [7]) [7] = [1, 2, 3, 4, 5] :=
  ⟨((rc4_self_inverse [1, 2, 3, 4, 5]).1 2 (by decide)).1,
    ((rc4_self_inverse [1, 2, 3, 4, 5]).2 [7] (by decide)).1⟩

end RkNand.MkIdblock
