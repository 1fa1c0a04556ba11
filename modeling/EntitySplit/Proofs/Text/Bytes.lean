import EntitySplit.Text.Basic

namespace EntitySplit

abbrev Bytes := List UInt8

namespace Text

/-- The UTF-8 form of a text, character by character. -/
def bytes (t : Text) : Bytes :=
  t.flatMap String.utf8EncodeChar

/-- The characters of one byte. -/
def IsAscii (c : Char) : Prop :=
  c.val ≤ 127
deriving Decidable

/-- The bytes that belong to characters of more than one byte. Every byte of
    such a character is one of these, the first included. -/
def IsHigh (b : UInt8) : Prop :=
  127 < b
deriving Decidable

section

variable {c d : Char} {s t mark : Text}

@[simp] theorem bytes_nil : bytes [] = [] :=
  rfl

theorem bytes_cons (c : Char) (t : Text) : bytes (c :: t) = String.utf8EncodeChar c ++ bytes t :=
  List.flatMap_cons

@[simp] theorem bytes_append (s t : Text) : bytes (s ++ t) = bytes s ++ bytes t :=
  List.flatMap_append

@[simp] theorem length_bytes (t : Text) : (bytes t).length = t.size := by
  induction t with
  | nil => rfl
  | cons c t ih => rw [bytes_cons, List.length_append, String.length_utf8EncodeChar, ih, size_cons]

theorem IsAscii.utf8Size_eq (hc : IsAscii c) : c.utf8Size = 1 :=
  Char.utf8Size_eq_one_iff.2 hc

theorem IsAscii.bytes_cons (hc : IsAscii c) (t : Text) : bytes (c :: t) = c.toUInt8 :: bytes t := by
  rw [Text.bytes_cons, String.utf8EncodeChar_eq_singleton hc.utf8Size_eq]
  rfl

@[simp] theorem size_reverse (t : Text) : Text.size t.reverse = t.size := by
  induction t with
  | nil => rfl
  | cons c t ih =>
    rw [List.reverse_cons, size_append, ih, size_cons, size_cons, size_nil, Nat.add_zero,
      Nat.add_comm]

theorem size_eq_length (ht : ∀ c ∈ t, IsAscii c) : t.size = t.length := by
  induction t with
  | nil => rfl
  | cons c t ih =>
    obtain ⟨hc, ht⟩ := List.forall_mem_cons.1 ht
    rw [size_cons, hc.utf8Size_eq, ih ht, List.length_cons, Nat.add_comm]

/-- A character that is not of ASCII has no byte of ASCII in it. -/
theorem isHigh_of_mem_utf8EncodeChar (hc : ¬IsAscii c) :
    ∀ b ∈ String.utf8EncodeChar c, IsHigh b := by
  have hhigh : ∀ n, 128 ≤ n → n < 256 → IsHigh (UInt8.ofNat n) := by
    intro n hle hlt
    rw [IsHigh, UInt8.lt_iff_toNat_lt, UInt8.toNat_ofNat_of_lt' hlt]
    exact hle
  have hlarge : ¬c.val.toNat ≤ 127 := by
    rwa [IsAscii, UInt32.le_iff_toNat_le] at hc
  intro b hb
  unfold String.utf8EncodeChar at hb
  simp only [hlarge, if_false] at hb
  split at hb
  · simp only [List.mem_cons, List.not_mem_nil, or_false] at hb
    rcases hb with rfl | rfl
    · exact hhigh _ (by omega) (by omega)
    · exact hhigh _ (by omega) (by omega)
  · split at hb
    · simp only [List.mem_cons, List.not_mem_nil, or_false] at hb
      rcases hb with rfl | rfl | rfl
      · exact hhigh _ (by omega) (by omega)
      · exact hhigh _ (by omega) (by omega)
      · exact hhigh _ (by omega) (by omega)
    · simp only [List.mem_cons, List.not_mem_nil, or_false] at hb
      rcases hb with rfl | rfl | rfl | rfl
      · exact hhigh _ (by omega) (by omega)
      · exact hhigh _ (by omega) (by omega)
      · exact hhigh _ (by omega) (by omega)
      · exact hhigh _ (by omega) (by omega)

/-- Behind the first byte of a character there are only bytes that are none of
    ASCII. -/
theorem exists_cons_utf8EncodeChar (c : Char) :
    ∃ b bs, String.utf8EncodeChar c = b :: bs ∧ ∀ x ∈ bs, IsHigh x := by
  by_cases hc : IsAscii c
  · exact ⟨c.val.toUInt8, [], String.utf8EncodeChar_eq_singleton hc.utf8Size_eq, by simp⟩
  · obtain ⟨b, bs, hbytes⟩ : ∃ b bs, String.utf8EncodeChar c = b :: bs := by
      apply List.exists_cons_of_length_pos
      rw [String.length_utf8EncodeChar]
      exact c.utf8Size_pos
    have hhigh := isHigh_of_mem_utf8EncodeChar hc
    rw [hbytes] at hhigh
    exact ⟨b, bs, hbytes, fun x hx => hhigh x (List.mem_cons_of_mem b hx)⟩

theorem IsAscii.toNat_toUInt8 (hc : IsAscii c) : c.toUInt8.toNat = c.val.toNat := by
  have hle : c.val.toNat ≤ 127 := by
    rwa [IsAscii, UInt32.le_iff_toNat_le] at hc
  rw [Char.toUInt8, UInt32.toNat_toUInt8, Nat.mod_eq_of_lt (by omega)]

theorem IsAscii.not_isHigh (hc : IsAscii c) : ¬IsHigh c.toUInt8 := by
  have hle : c.val.toNat ≤ 127 := by
    rwa [IsAscii, UInt32.le_iff_toNat_le] at hc
  rw [IsHigh, UInt8.lt_iff_toNat_lt, hc.toNat_toUInt8]
  exact Nat.not_lt.2 hle

theorem IsAscii.toUInt8_inj (hc : IsAscii c) (hd : IsAscii d) (h : c.toUInt8 = d.toUInt8) :
    c = d := by
  apply Char.ext
  apply UInt32.toNat_inj.1
  rw [← hc.toNat_toUInt8, ← hd.toNat_toUInt8, h]

theorem IsAscii.toUInt8_ne (hc : IsAscii c) (hd : IsAscii d) (hne : c ≠ d) :
    c.toUInt8 ≠ d.toUInt8 :=
  fun h => hne (hc.toUInt8_inj hd h)

theorem IsHigh.ne_toUInt8 {b : UInt8} (hb : IsHigh b) (hc : IsAscii c) : b ≠ c.toUInt8 := by
  rintro rfl
  exact hc.not_isHigh hb

/-- A test of bytes that tells the same of a character of ASCII as a test of
    characters, and both pass ASCII only. Such a test can be made at any byte
    without regard to where characters begin. -/
structure Tests (p : UInt8 → Bool) (q : Char → Bool) : Prop where
  ascii {c : Char} (hc : IsAscii c) : p c.toUInt8 = q c
  high {b : UInt8} (hb : IsHigh b) : p b = false
  isAscii {c : Char} (hc : q c = true) : IsAscii c

theorem tests_eq (hd : IsAscii d) : Tests (· = d.toUInt8) (· = d) where
  ascii hc := decide_eq_decide.2 ⟨hc.toUInt8_inj hd, congrArg Char.toUInt8⟩
  high hb := decide_eq_false (hb.ne_toUInt8 hd)
  isAscii hc := of_decide_eq_true hc ▸ hd

theorem Tests.size_takeWhile {p : UInt8 → Bool} {q : Char → Bool} (h : Tests p q) (t : Text) :
    Text.size (t.takeWhile q) = (t.takeWhile q).length :=
  size_eq_length fun _ hc => h.isAscii (List.all_eq_true.1 List.all_takeWhile _ hc)

/-- A run of bytes that pass is the bytes of the run of characters that pass,
    and so is what follows it. -/
theorem Tests.run_bytes {p : UInt8 → Bool} {q : Char → Bool} (h : Tests p q) (t : Text) :
    (bytes t).takeWhile p = bytes (t.takeWhile q) ∧
      (bytes t).dropWhile p = bytes (t.dropWhile q) := by
  induction t with
  | nil => exact ⟨rfl, rfl⟩
  | cons c t ih =>
    by_cases hc : IsAscii c
    · rw [hc.bytes_cons, List.takeWhile_cons, List.dropWhile_cons, List.takeWhile_cons,
        List.dropWhile_cons, h.ascii hc]
      cases q c with
      | true => simp only [if_true, hc.bytes_cons, ih, and_self]
      | false => simp [hc.bytes_cons]
    · have hq : ¬q c = true := fun hq => hc (h.isAscii hq)
      have hhigh := isHigh_of_mem_utf8EncodeChar hc
      obtain ⟨b, bs, hbytes, -⟩ := exists_cons_utf8EncodeChar c
      have hp : ¬p b = true := by
        simp [h.high (hhigh b (by simp [hbytes]))]
      rw [List.takeWhile_cons_of_neg hq, List.dropWhile_cons_of_neg hq, bytes_cons, hbytes,
        List.cons_append, List.takeWhile_cons_of_neg hp, List.dropWhile_cons_of_neg hp]
      exact ⟨rfl, rfl⟩

/-- A text begins with a mark of ASCII if its bytes begin with the mark's, and
    only then. -/
theorem bytes_prefix_bytes_iff (hmark : ∀ m ∈ mark, IsAscii m) :
    bytes mark <+: bytes t ↔ mark <+: t := by
  constructor
  · intro h
    induction mark generalizing t with
    | nil => exact List.nil_prefix
    | cons m mark ih =>
      have hm := hmark m List.mem_cons_self
      rw [hm.bytes_cons] at h
      cases t with
      | nil => exact absurd (List.prefix_nil.1 h) (by simp)
      | cons c t =>
        by_cases hc : IsAscii c
        · rw [hc.bytes_cons, List.cons_prefix_cons] at h
          rw [hm.toUInt8_inj hc h.1, List.cons_prefix_cons]
          exact ⟨rfl, ih (fun x hx => hmark x (List.mem_cons_of_mem m hx)) h.2⟩
        · obtain ⟨b, bs, hbytes, -⟩ := exists_cons_utf8EncodeChar c
          have hb := isHigh_of_mem_utf8EncodeChar hc b (by simp [hbytes])
          rw [bytes_cons, hbytes, List.cons_append, List.cons_prefix_cons] at h
          exact absurd h.1.symm (hb.ne_toUInt8 hm)
  · rintro ⟨rest, rfl⟩
    rw [bytes_append]
    exact List.prefix_append _ _

/-- Where a byte of ASCII stands, the text can be cut, and the byte's character
    stands behind the cut. -/
theorem exists_append_of_getElem?_bytes {position : Nat} (hc : IsAscii c)
    (h : (bytes t)[position]? = some c.toUInt8) :
    ∃ head rest, t = head ++ c :: rest ∧ head.size = position := by
  induction t generalizing position with
  | nil => simp at h
  | cons d t ih =>
    by_cases hlt : position < d.utf8Size
    · rw [bytes_cons, List.getElem?_append_left (by rwa [String.length_utf8EncodeChar])] at h
      have hd : IsAscii d :=
        Decidable.byContradiction fun hd =>
          hc.not_isHigh (isHigh_of_mem_utf8EncodeChar hd _ (List.mem_of_getElem? h))
      have hzero : position = 0 := by
        rw [hd.utf8Size_eq] at hlt
        omega
      rw [hzero, String.utf8EncodeChar_eq_singleton hd.utf8Size_eq, List.getElem?_cons_zero,
        Option.some.injEq] at h
      exact ⟨[], t, by rw [hd.toUInt8_inj hc h, List.nil_append], hzero.symm⟩
    · rw [bytes_cons, List.getElem?_append_right (by rw [String.length_utf8EncodeChar]; omega),
        String.length_utf8EncodeChar] at h
      obtain ⟨head, rest, rfl, hsize⟩ := ih h
      refine ⟨d :: head, rest, rfl, ?_⟩
      rw [size_cons]
      omega

/-- A byte of ASCII is in a text where its character is. -/
theorem mem_bytes_iff (hc : IsAscii c) : c.toUInt8 ∈ bytes t ↔ c ∈ t := by
  constructor
  · intro h
    obtain ⟨position, hposition⟩ := List.mem_iff_getElem?.1 h
    obtain ⟨head, rest, rfl, -⟩ := exists_append_of_getElem?_bytes hc hposition
    simp
  · intro h
    obtain ⟨head, rest, rfl⟩ := List.append_of_mem h
    rw [bytes_append, hc.bytes_cons]
    simp

end

end Text

end EntitySplit
