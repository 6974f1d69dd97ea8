import Mathlib.Data.String.Basic
import Provision.Proofs.Headings.Lines

/-!
# The order of names

Names are put in order code point by code point. That is the order of their encodings, byte by byte
(`Bytes.ofText_lt_iff`): of two code points the greater one has the greater first byte that differs,
whether or not their encodings are of one length.
-/

namespace Provision

namespace Bytes

/-- What starts with the lesser of two characters comes first, byte by byte. -/
theorem utf8EncodeChar_lt {c d : Char} (h : c < d) (bs cs : Bytes) :
    String.utf8EncodeChar c ++ bs < String.utf8EncodeChar d ++ cs := by
  have hlt : c.val.toNat < d.val.toNat := UInt32.lt_iff_toNat_lt.1 (Char.lt_def.1 h)
  have hvalid : d.val.toNat < 0x110000 := by
    rcases d.valid with hd | hd
    · exact Nat.lt_trans hd (by decide)
    · exact hd.2
  unfold String.utf8EncodeChar
  dsimp only
  generalize c.val.toNat = m at hlt
  generalize d.val.toNat = n at hlt hvalid
  have hm : m / 64 / 64 = m / 4096 ∧ m / 4096 / 64 = m / 262144 :=
    ⟨Nat.div_div_eq_div_mul m 64 64, Nat.div_div_eq_div_mul m 4096 64⟩
  have hn : n / 64 / 64 = n / 4096 ∧ n / 4096 / 64 = n / 262144 :=
    ⟨Nat.div_div_eq_div_mul n 64 64, Nat.div_div_eq_div_mul n 4096 64⟩
  -- The four lengths of an encoding on either side; the greater code point is not the shorter one.
  split_ifs
  all_goals
    simp (disch := omega) only [List.cons_append, List.nil_append, List.cons_lt_cons_iff,
      UInt8.lt_iff_toNat_lt, ← UInt8.toNat_inj, UInt8.toNat_ofNat', Nat.mod_eq_of_lt]
    omega

/-- Texts in order are encoded in order, by induction on what they start with in common. -/
theorem flatMap_utf8EncodeChar_lt {cs ds : List Char} (h : cs < ds) :
    cs.flatMap String.utf8EncodeChar < ds.flatMap String.utf8EncodeChar := by
  induction cs generalizing ds with
  | nil =>
    obtain ⟨d, ds, rfl⟩ : ∃ d rest, ds = d :: rest := by
      apply List.exists_cons_of_ne_nil
      rintro rfl
      exact List.not_lt_nil [] h
    have hd : String.utf8EncodeChar d ≠ [] := String.utf8EncodeChar_ne_nil
    obtain ⟨b, bs, hb⟩ := List.exists_cons_of_ne_nil hd
    rw [List.flatMap_nil, List.flatMap_cons, hb]
    exact List.nil_lt_cons b _
  | cons c cs ih =>
    cases ds with
    | nil => exact absurd h (List.not_lt_nil _)
    | cons d ds =>
      rw [List.flatMap_cons, List.flatMap_cons]
      rcases List.cons_lt_cons_iff.1 h with hcd | ⟨rfl, hrest⟩
      · exact utf8EncodeChar_lt hcd _ _
      · exact List.append_left_lt (ih hrest)

/-- A text comes before another one exactly when its encoding does. -/
theorem ofText_lt_iff {s t : String} : ofText s < ofText t ↔ s < t := by
  have mono {s t : String} (h : s < t) : ofText s < ofText t := by
    rw [ofText_eq_flatMap, ofText_eq_flatMap]
    exact flatMap_utf8EncodeChar_lt (String.lt_iff_toList_lt.1 h)
  constructor
  · intro h
    rcases lt_trichotomy s t with hst | rfl | hts
    · exact hst
    · exact absurd h (List.lt_irrefl _)
    · exact absurd h (List.lt_asymm (mono hts))
  · exact mono

end Bytes

end Provision
