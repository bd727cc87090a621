import ImportIndex.Text.Bytes
import ImportIndex.Text.Split

/-!
# Small characters in UTF-8

The UTF-8 form of a text is made of those of its characters. A character below 128 is a byte of its own,
which is in the form of no other character, so whether such a character is in a text can be seen from the
bytes (`Bytes.ofNat_mem_ofText_iff`), and splitting a text at such a character splits the bytes
(`Bytes.splitAt_ofText`).
-/

namespace ImportIndex.Bytes

variable {c d : Char} {s : String}

/-- The UTF-8 form of a text is made of those of its characters. -/
theorem ofText_eq_flatMap (s : String) : ofText s = s.toList.flatMap String.utf8EncodeChar := by
  have hbytes : s.toByteArray = s.toList.utf8Encode := by
    rw [← String.toByteArray_ofList, String.ofList_toList]
  rw [ofText, ofArray_eq, hbytes, List.utf8Encode]
  simp

/-- A byte below 128 is in the form of one character only. -/
theorem ofNat_mem_utf8EncodeChar_iff (hc : c.toNat < 0x80) :
    UInt8.ofNat c.toNat ∈ String.utf8EncodeChar d ↔ d = c := by
  have hbyte : ∀ {n : Nat}, n < 0x100 → (UInt8.ofNat c.toNat = UInt8.ofNat n ↔ c.toNat = n) := by
    intro n hn
    rw [← UInt8.toNat_inj, UInt8.toNat_ofNat', UInt8.toNat_ofNat']
    omega
  rw [← Char.toNat_inj]
  -- All bytes of a form that has more than one are above 127.
  fun_cases String.utf8EncodeChar d with
  | case1 v h =>
    rw [List.mem_singleton, hbyte (by omega)]
    exact eq_comm
  | case2 v h =>
    have hv : d.toNat = v := rfl
    simp (disch := omega) only [List.mem_cons, List.not_mem_nil, or_false, hbyte]
    omega
  | case3 v h =>
    have hv : d.toNat = v := rfl
    simp (disch := omega) only [List.mem_cons, List.not_mem_nil, or_false, hbyte]
    omega
  | case4 v h =>
    have hv : d.toNat = v := rfl
    simp (disch := omega) only [List.mem_cons, List.not_mem_nil, or_false, hbyte]
    omega

/-- A character below 128 is in a text exactly if its byte is in the UTF-8 form. -/
theorem ofNat_mem_ofText_iff (hc : c.toNat < 0x80) :
    UInt8.ofNat c.toNat ∈ ofText s ↔ c ∈ s.toList := by
  rw [ofText_eq_flatMap, List.mem_flatMap]
  constructor
  · rintro ⟨d, hd, hmem⟩
    exact (ofNat_mem_utf8EncodeChar_iff hc).1 hmem ▸ hd
  · exact fun h => ⟨c, h, (ofNat_mem_utf8EncodeChar_iff hc).2 rfl⟩

theorem ofText_ofList (l : List Char) : ofText (String.ofList l) = l.flatMap String.utf8EncodeChar := by
  rw [ofText_eq_flatMap, String.toList_ofList]

theorem ofText_append (s t : String) : ofText (s ++ t) = ofText s ++ ofText t := by
  rw [ofText_eq_flatMap, ofText_eq_flatMap, ofText_eq_flatMap, String.toList_append, List.flatMap_append]

theorem ofText_inj {s t : String} : ofText s = ofText t ↔ s = t :=
  ⟨fun h => Option.some.inj (by rw [← toText?_ofText s, h, toText?_ofText]), congrArg ofText⟩

/-- What stands before a list without separators is put before its first piece. -/
theorem splitAt_append {b l piece : Bytes} {pieces : List Bytes} {sep : UInt8} (hb : sep ∉ b)
    (h : splitAt sep l = piece :: pieces) : splitAt sep (b ++ l) = (b ++ piece) :: pieces := by
  induction b with
  | nil => exact h
  | cons x b ih =>
    rw [List.mem_cons, not_or] at hb
    have hx : ¬ (x == sep) = true := by simpa using Ne.symm hb.1
    have ih := ih hb.2
    rw [splitAt] at ih ⊢
    rw [List.cons_append, splitWhere, if_neg hx, ih]
    rfl

theorem utf8EncodeChar_of_lt (hc : c.toNat < 0x80) : String.utf8EncodeChar c = [UInt8.ofNat c.toNat] := by
  have hv : c.val.toNat ≤ 0x7F := Nat.le_of_lt_succ hc
  rw [String.utf8EncodeChar]
  simp only [hv, if_true]
  rfl

/-- The pieces of a text between small characters are those of its bytes. -/
theorem splitAt_ofText (hc : c.toNat < 0x80) (l : List Char) :
    splitAt (UInt8.ofNat c.toNat) (ofText (String.ofList l)) =
      (splitAt c l).map fun piece => ofText (String.ofList piece) := by
  simp only [ofText_ofList]
  induction l with
  | nil => rfl
  | cons d l ih =>
    rw [List.flatMap_cons]
    by_cases hd : d = c
    · subst hd
      have hsplit : splitAt d (d :: l) = [] :: splitAt d l := splitAt_append_cons d [] l
      rw [hsplit, utf8EncodeChar_of_lt hc, List.map_cons, ← ih]
      exact splitAt_append_cons _ [] _
    · have hbytes : UInt8.ofNat c.toNat ∉ String.utf8EncodeChar d :=
        fun h => hd ((ofNat_mem_utf8EncodeChar_iff hc).1 h)
      have hne : ¬ (d == c) = true := by simpa using hd
      cases hsplit : splitAt c l with
      | nil => exact absurd hsplit (splitWhere_ne_nil _ l)
      | cons piece pieces =>
        rw [hsplit, List.map_cons] at ih
        have hcons : splitAt c (d :: l) = (d :: piece) :: pieces := by
          rw [splitAt] at hsplit ⊢
          rw [splitWhere, if_neg hne, hsplit]
        rw [splitAt_append hbytes ih, hcons]
        rfl

end ImportIndex.Bytes
