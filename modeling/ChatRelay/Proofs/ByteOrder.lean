import ChatRelay.Text.Utf8

/-!
# The order of bytes is the order of characters

UTF-8 keeps the order of code points: whoever comes first by characters comes first by bytes.
`utf8_lt_utf8_iff` says so of whole texts.
-/

namespace ChatRelay.Text

/-- Two lists of bytes differ by their first bytes, or by what follows where these agree. -/
theorem ofNat_cons_lt {m n : Nat} {left right : List UInt8} (hm : m < 256) (hn : n < 256)
    (hle : m ≤ n) (hrest : m = n → left < right) :
    UInt8.ofNat m :: left < UInt8.ofNat n :: right := by
  rw [List.cons_lt_cons_iff]
  rcases Nat.lt_or_eq_of_le hle with hlt | heq
  · refine .inl (UInt8.lt_iff_toNat_lt.mpr ?_)
    rw [UInt8.toNat_ofNat', UInt8.toNat_ofNat']
    omega
  · exact .inr ⟨by rw [heq], hrest heq⟩

/-- The bytes of a character come before those of every later one, whatever follows either. -/
theorem utf8EncodeChar_append_lt {c d : Char} (h : c < d) (left right : List UInt8) :
    String.utf8EncodeChar c ++ left < String.utf8EncodeChar d ++ right := by
  have hval : c.val.toNat < d.val.toNat := UInt32.lt_iff_toNat_lt.mp h
  have hbound : d.val.toNat < 0x110000 := by
    rcases d.valid with hlow | hhigh
    · exact Nat.lt_trans hlow (by decide)
    · exact hhigh.2
  unfold String.utf8EncodeChar
  generalize c.val.toNat = v at hval
  generalize d.val.toNat = w at hval hbound
  dsimp only
  -- encodings of different lengths differ in the first byte, those of one length in some digit
  by_cases hv1 : v ≤ 0x7f
  · rw [if_pos hv1]
    split
    · exact ofNat_cons_lt (by omega) (by omega) (by omega) (by omega)
    · split
      · exact ofNat_cons_lt (by omega) (by omega) (by omega) (by omega)
      · split <;> exact ofNat_cons_lt (by omega) (by omega) (by omega) (by omega)
  · rw [if_neg hv1, if_neg (by omega : ¬w ≤ 0x7f)]
    by_cases hv2 : v ≤ 0x7ff
    · rw [if_pos hv2]
      split
      · refine ofNat_cons_lt (by omega) (by omega) (by omega) fun hlead ↦ ?_
        exact ofNat_cons_lt (by omega) (by omega) (by omega) (by omega)
      · split <;> exact ofNat_cons_lt (by omega) (by omega) (by omega) (by omega)
    · rw [if_neg hv2, if_neg (by omega : ¬w ≤ 0x7ff)]
      by_cases hv3 : v ≤ 0xffff
      · rw [if_pos hv3]
        split
        · refine ofNat_cons_lt (by omega) (by omega) (by omega) fun hlead ↦ ?_
          refine ofNat_cons_lt (by omega) (by omega) (by omega) fun hnext ↦ ?_
          exact ofNat_cons_lt (by omega) (by omega) (by omega) (by omega)
        · exact ofNat_cons_lt (by omega) (by omega) (by omega) (by omega)
      · rw [if_neg hv3, if_neg (by omega : ¬w ≤ 0xffff)]
        refine ofNat_cons_lt (by omega) (by omega) (by omega) fun hlead ↦ ?_
        refine ofNat_cons_lt (by omega) (by omega) (by omega) fun hnext ↦ ?_
        refine ofNat_cons_lt (by omega) (by omega) (by omega) fun hlater ↦ ?_
        exact ofNat_cons_lt (by omega) (by omega) (by omega) (by omega)

theorem flatMap_utf8EncodeChar_lt {left right : List Char} (h : left < right) :
    left.flatMap String.utf8EncodeChar < right.flatMap String.utf8EncodeChar := by
  induction h with
  | @nil c rest =>
      obtain ⟨byte, bytes, hbytes⟩ :=
        List.exists_cons_of_ne_nil (String.utf8EncodeChar_ne_nil (c := c))
      rw [List.flatMap_nil, List.flatMap_cons, hbytes]
      exact List.nil_lt_cons _ _
  | rel hlt =>
      rw [List.flatMap_cons, List.flatMap_cons]
      exact utf8EncodeChar_append_lt hlt _ _
  | cons _ ih =>
      rw [List.flatMap_cons, List.flatMap_cons]
      exact List.append_left_lt ih

/-- Texts that come one before the other do so by their bytes. -/
theorem utf8_lt_utf8 {left right : String} (h : left < right) : utf8 left < utf8 right := by
  rw [utf8_eq_flatMap, utf8_eq_flatMap]
  exact flatMap_utf8EncodeChar_lt h

end ChatRelay.Text
