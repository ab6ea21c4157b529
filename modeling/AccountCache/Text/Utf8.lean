import AccountCache.Bytes

namespace AccountCache.Text.Utf8

structure Fault where
  index : Nat
  length : Option Nat
  deriving DecidableEq

def Fault.message (f : Fault) : String :=
  match f.length with
  | some n => s!"invalid utf-8 sequence of {n} bytes from index {f.index}"
  | none => s!"incomplete utf-8 byte sequence from index {f.index}"

-- The ranges that the bytes after a leading byte must lie in.
def following (lead : UInt8) : Option (List (UInt8 × UInt8)) :=
  if lead < 0x80 then some []
  else if lead < 0xc2 then none
  else if lead < 0xe0 then some [(0x80, 0xbf)]
  else if lead = 0xe0 then some [(0xa0, 0xbf), (0x80, 0xbf)]
  else if lead = 0xed then some [(0x80, 0x9f), (0x80, 0xbf)]
  else if lead < 0xf0 then some [(0x80, 0xbf), (0x80, 0xbf)]
  else if lead = 0xf0 then some [(0x90, 0xbf), (0x80, 0xbf), (0x80, 0xbf)]
  else if lead < 0xf4 then some [(0x80, 0xbf), (0x80, 0xbf), (0x80, 0xbf)]
  else if lead = 0xf4 then some [(0x80, 0x8f), (0x80, 0xbf), (0x80, 0xbf)]
  else none

-- Where the bytes leave the ranges: `some none` if they end first, `some (some n)` if the byte
-- after `n` fitting ones does not fit.
def departure : List (UInt8 × UInt8) → Bytes → Option (Option Nat)
  | [], _ => none
  | _ :: _, [] => some none
  | r :: rs, b :: bs =>
    if r.1 ≤ b ∧ b ≤ r.2 then (departure rs bs).map (·.map (· + 1)) else some (some 0)

def fault? (index : Nat) (bs : Bytes) : Option Fault :=
  match bs with
  | [] => none
  | lead :: rest =>
    match following lead with
    | none => some ⟨index, some 1⟩
    | some ranges =>
      match departure ranges rest with
      | some length => some ⟨index, length.map (· + 1)⟩
      | none => fault? (index + 1 + ranges.length) (rest.drop ranges.length)
termination_by bs.length
decreasing_by simp only [List.length_drop, List.length_cons]; omega

def decode (bs : Bytes) : Except Fault String :=
  match String.fromUTF8? ⟨bs.toArray⟩ with
  | some s => .ok s
  | none => .error ((fault? 0 bs).getD ⟨0, none⟩)

theorem toList_loop (bs : ByteArray) (i : Nat) (acc : List UInt8) :
    ByteArray.toList.loop bs i acc = acc.reverse ++ bs.data.toList.drop i := by
  fun_induction ByteArray.toList.loop bs i acc with
  | case1 i acc h ih =>
    have hi : i < bs.data.toList.length := by simpa using h
    have hb : bs.get! i = bs.data.toList[i] := by
      rw [Array.getElem_toList]
      exact getElem!_pos bs.data i (by simpa using h)
    rw [ih, List.drop_eq_getElem_cons hi, hb]
    simp
  | case2 i acc h =>
    have hi : bs.data.toList.length ≤ i := by simpa using h
    simp [List.drop_eq_nil_of_le hi]

theorem toByteArray_ofString (s : String) :
    (⟨(Bytes.ofString s).toArray⟩ : ByteArray) = s.toByteArray := by
  have h : Bytes.ofString s = s.toByteArray.data.toList := toList_loop s.toByteArray 0 []
  rw [h]

theorem decode_ofString (s : String) : decode (Bytes.ofString s) = .ok s := by
  have h : String.fromUTF8? s.toByteArray = some s := by
    simp only [String.fromUTF8?, s.isValidUTF8, dite_true, String.fromUTF8]
  unfold decode
  rw [toByteArray_ofString, h]

theorem ofString_of_decode {bs : Bytes} {s : String} (h : decode bs = .ok s) :
    Bytes.ofString s = bs := by
  unfold decode at h
  split at h
  case h_1 s' hs =>
    cases h
    simp only [String.fromUTF8?, Option.dite_none_right_eq_some, Option.some.injEq] at hs
    obtain ⟨hv, rfl⟩ := hs
    have hb := congrArg (·.data.toList) (toByteArray_ofString (String.fromUTF8 ⟨bs.toArray⟩ hv))
    simpa [String.fromUTF8] using hb
  case h_2 => contradiction

end AccountCache.Text.Utf8
