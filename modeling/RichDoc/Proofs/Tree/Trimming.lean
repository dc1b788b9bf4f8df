import RichDoc.Source

/-!
# Where trimmed spans stop

A trimmed span stops behind its last byte that is no line ending. No character but the line endings themselves is
encoded with one of these bytes, so that what `Source.Filled` and `Source.FilledToEnd` say of characters fixes where
the span stops: not at its start (`start_lt_trimmedStop`), not before a span inside that is filled to its end
(`stop_le_trimmedStop`), and not before another trimmed span inside (`trimmedStop_le_trimmedStop`).
-/

namespace RichDoc
namespace Source

/-- The span is one of the text, with a character in it that is no line ending. -/
def Filled (s : Source) (a : Span) : Prop := ∃ t ∈ s.slice? a, ∃ c ∈ t.toList, c ≠ '\n' ∧ c ≠ '\r'

/-- The span is one of the text, and its last character is no line ending. -/
def FilledToEnd (s : Source) (a : Span) : Prop := ∃ t ∈ s.slice? a, ∃ c ∈ t.toList.getLast?, c ≠ '\n' ∧ c ≠ '\r'

instance (s : Source) (a : Span) : Decidable (s.Filled a) :=
  decidable_of_iff ((s.slice? a).any fun t => t.toList.any fun c => c ≠ '\n' ∧ c ≠ '\r') <| by
    cases h : s.slice? a <;> simp [Filled, h]

instance (s : Source) (a : Span) : Decidable (s.FilledToEnd a) :=
  decidable_of_iff ((s.slice? a).any fun t => t.toList.getLast?.any fun c => c ≠ '\n' ∧ c ≠ '\r') <| by
    cases h : s.slice? a <;> simp [FilledToEnd, h, Option.any_eq_true]

variable {s : Source} {a r : Span} {t : String} {p : UInt8 → Bool} {c : Char} {b : UInt8} {k lo hi : Nat}

/-! ### Characters and bytes -/

theorem range_of_slice? (h : s.slice? a = some t) : a.start ≤ a.stop ∧ a.stop ≤ s.size := by
  unfold slice? at h
  split at h
  · next hr =>
    simp only [Bool.and_eq_true, decide_eq_true_eq] at hr
    exact hr.1.1
  · cases h

theorem trimmedStop_eq (h : s.slice? a = some t) : s.trimmedStop a = s.skipBack isLineEnd a.start a.stop := by
  unfold slice? at h
  split at h
  · next hr => exact if_pos hr
  · cases h

/-- The text of a span stands there byte by byte. -/
theorem bytes_of_slice? (h : s.slice? a = some t) :
    t.toList.flatMap String.utf8EncodeChar = (s.bytes.data.extract a.start a.stop).toList := by
  have hbytes : t.toByteArray = s.bytes.extract a.start a.stop := by
    unfold slice? String.fromUTF8? at h
    split at h
    · split at h
      · rw [← Option.some.inj h]
        rfl
      · cases h
    · cases h
  rw [← ByteArray.data_extract, ← hbytes, ← String.utf8Encode_toList, List.utf8Encode, List.data_toByteArray]

theorem byte?_of_slice? (h : s.slice? a = some t) (hb : (t.toList.flatMap String.utf8EncodeChar)[k]? = some b) :
    a.start + k < a.stop ∧ s.byte? (a.start + k) = some b := by
  have hsize := (range_of_slice? h).2
  rw [bytes_of_slice? h, Array.getElem?_toList, Array.getElem?_extract] at hb
  split at hb
  · next hk =>
    have hlt : a.start + k < a.stop := by omega
    refine ⟨hlt, ?_⟩
    rw [byte?, if_pos (by omega)]
    exact hb
  · cases hb

/-- Only a line ending is encoded with the byte of one. -/
theorem isLineEnd_of_mem (hb : b ∈ String.utf8EncodeChar c) (hn : c ≠ '\n') (hr : c ≠ '\r') : isLineEnd b = false := by
  have hne : ∀ d : Char, c ≠ d → c.val.toNat ≠ d.val.toNat := fun d hd he =>
    hd (Char.ext (UInt32.toNat_inj.1 he))
  have hn := hne _ hn
  have hr := hne _ hr
  have hout : ∀ v : Nat, v < 256 → v ≠ 10 → v ≠ 13 → isLineEnd (UInt8.ofNat v) = false := by decide +kernel
  simp only [show '\n'.val.toNat = 10 from rfl, show '\r'.val.toNat = 13 from rfl] at hn hr
  unfold String.utf8EncodeChar at hb
  dsimp only at hb
  -- from two bytes on, each of them is 128 or more
  split at hb
  · rw [List.mem_singleton.1 hb]
    exact hout _ (by omega) hn hr
  · split at hb
    · simp only [List.mem_cons, List.not_mem_nil, or_false] at hb
      rcases hb with rfl | rfl <;> exact hout _ (by omega) (by omega) (by omega)
    · split at hb
      · simp only [List.mem_cons, List.not_mem_nil, or_false] at hb
        rcases hb with rfl | rfl | rfl <;> exact hout _ (by omega) (by omega) (by omega)
      · simp only [List.mem_cons, List.not_mem_nil, or_false] at hb
        rcases hb with rfl | rfl | rfl | rfl <;> exact hout _ (by omega) (by omega) (by omega)

theorem satisfies_eq_false (h : s.byte? k = some b) (hb : p b = false) : s.satisfies k p = false := by
  rw [satisfies, h]
  exact hb

theorem Filled.exists_byte (h : s.Filled a) : ∃ k, a.start ≤ k ∧ k < a.stop ∧ s.satisfies k isLineEnd = false := by
  obtain ⟨t, ht, c, hc, hn, hr⟩ := h
  obtain ⟨b, hb⟩ := List.exists_mem_of_ne_nil _ String.utf8EncodeChar_ne_nil
  obtain ⟨k, hk⟩ := List.mem_iff_getElem?.1 (List.mem_flatMap.2 ⟨c, hc, hb⟩)
  obtain ⟨hlt, hbyte⟩ := byte?_of_slice? ht hk
  exact ⟨a.start + k, by omega, hlt, satisfies_eq_false hbyte (isLineEnd_of_mem hb hn hr)⟩

theorem FilledToEnd.last_byte (hs : s.size ≤ s.bytes.size) (h : s.FilledToEnd a) :
    a.start < a.stop ∧ s.satisfies (a.stop - 1) isLineEnd = false := by
  obtain ⟨t, ht, c, hc, hn, hr⟩ := h
  have hne : String.utf8EncodeChar c ≠ [] := String.utf8EncodeChar_ne_nil
  have hlast : (t.toList.flatMap String.utf8EncodeChar).getLast? = some ((String.utf8EncodeChar c).getLast hne) := by
    obtain ⟨l, hl⟩ := List.getLast?_eq_some_iff.1 hc
    rw [hl, List.flatMap_append, List.flatMap_singleton, List.getLast?_append, List.getLast?_eq_some_getLast hne]
    rfl
  have hlen : (t.toList.flatMap String.utf8EncodeChar).length = a.stop - a.start := by
    have hbytes : s.bytes.data.size = s.bytes.size := rfl
    have hsize := (range_of_slice? ht).2
    rw [bytes_of_slice? ht, Array.length_toList, Array.size_extract]
    omega
  rw [List.getLast?_eq_getElem?, hlen] at hlast
  obtain ⟨hlt, hbyte⟩ := byte?_of_slice? ht hlast
  have hstop : a.start + (a.stop - a.start - 1) = a.stop - 1 := by omega
  rw [hstop] at hbyte
  exact ⟨by omega, satisfies_eq_false hbyte (isLineEnd_of_mem (List.getLast_mem hne) hn hr)⟩

/-! ### Trimmed spans -/

theorem lt_skipBack (hk : k < hi) (h : s.satisfies k p = false) : k < s.skipBack p lo hi := by
  induction hi with
  | zero => omega
  | succ i ih =>
    unfold skipBack
    split
    · next hp =>
      simp only [Bool.and_eq_true] at hp
      have hne : k ≠ i := by
        rintro rfl
        rw [h] at hp
        cases hp.2
      exact ih (by omega)
    · exact hk

theorem satisfies_skipBack (h : lo < s.skipBack p lo hi) : s.satisfies (s.skipBack p lo hi - 1) p = false := by
  induction hi with
  | zero =>
    unfold skipBack at h
    omega
  | succ i ih =>
    unfold skipBack at h ⊢
    split
    · next hp =>
      rw [if_pos hp] at h
      exact ih h
    · next hp =>
      rw [if_neg hp] at h
      have hlo : lo ≤ i := by omega
      simpa [hlo] using hp

theorem trimmedStop_le_stop (h : s.slice? a = some t) : s.trimmedStop a ≤ a.stop := by
  rw [trimmedStop_eq h]
  exact s.skipBack_le _ _ _

theorem lt_trimmedStop (h : s.slice? a = some t) (hk : k < a.stop) (hb : s.satisfies k isLineEnd = false) :
    k < s.trimmedStop a := by
  rw [trimmedStop_eq h]
  exact lt_skipBack hk hb

theorem start_lt_trimmedStop (h : s.Filled a) : a.start < s.trimmedStop a := by
  obtain ⟨k, hlo, hk, hb⟩ := h.exists_byte
  obtain ⟨t, ht, -⟩ := h
  exact Nat.lt_of_le_of_lt hlo (lt_trimmedStop ht hk hb)

theorem stop_le_trimmedStop (hs : s.size ≤ s.bytes.size) (hr : s.FilledToEnd r) (h : s.slice? a = some t)
    (hra : r.within a = true) : r.stop ≤ s.trimmedStop a := by
  obtain ⟨hlt, hb⟩ := hr.last_byte hs
  rw [Span.within_iff] at hra
  have := lt_trimmedStop h (k := r.stop - 1) (by omega) hb
  omega

theorem trimmedStop_le_trimmedStop (hr : s.Filled r) (h : s.slice? a = some t) (hra : r.within a = true) :
    s.trimmedStop r ≤ s.trimmedStop a := by
  have hlt := start_lt_trimmedStop hr
  obtain ⟨u, hu, -⟩ := hr
  have hle := trimmedStop_le_stop hu
  rw [Span.within_iff] at hra
  have hb : s.satisfies (s.trimmedStop r - 1) isLineEnd = false := by
    rw [trimmedStop_eq hu] at hlt ⊢
    exact satisfies_skipBack hlt
  have := lt_trimmedStop h (k := s.trimmedStop r - 1) (by omega) hb
  omega

end Source
end RichDoc
