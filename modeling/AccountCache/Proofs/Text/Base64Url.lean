import AccountCache.Text.Base64Url

namespace AccountCache.Text.Base64Url

variable {a b c : UInt8} {n offset position : Nat}

theorem value?_symbol (h : n < 64) : value? (symbol n) = some n := by
  have all : ∀ n : Fin 64, value? (symbol n) = some n.val := by decide
  exact all ⟨n, h⟩

theorem symbol_ne_padding (h : n < 64) : symbol n ≠ padding := by
  intro hs
  have hv := value?_symbol h
  rw [hs] at hv
  contradiction

theorem readSymbol_symbol (h : n < 64) : readSymbol offset (symbol n) = .ok n := by
  simp only [readSymbol, value?_symbol h]

theorem quadValues_symbols (ns : List Nat) (h : ∀ n ∈ ns, n < 64) :
    quadValues offset position none (ns.map symbol) = .ok ns := by
  induction ns generalizing position
  case nil => rfl
  case cons n ns ih =>
    have hn := h n (.head _)
    have hns : quadValues offset (position + 1) none (ns.map symbol) = .ok ns :=
      ih fun m hm => h m (.tail _ hm)
    simp only [List.map_cons, quadValues, if_neg (symbol_ne_padding hn), readSymbol_symbol hn, hns]
    rfl

-- The values of a group of bytes give the bytes back.

theorem value_lt (a b : UInt8) : a.toNat / 4 < 64 ∧ a.toNat % 4 * 16 + b.toNat / 16 < 64 ∧
    a.toNat % 4 * 16 < 64 ∧ b.toNat % 16 * 4 < 64 := by
  have ha := a.toNat_lt
  have hb := b.toNat_lt
  omega

theorem first_byte {m : Nat} (h : m < 16) :
    (a.toNat / 4 * 4 + (a.toNat % 4 * 16 + m) / 16).toUInt8 = a := by
  have hn : a.toNat / 4 * 4 + (a.toNat % 4 * 16 + m) / 16 = a.toNat := by omega
  rw [hn]
  exact UInt8.ofNat_toNat

theorem second_byte {m : Nat} (h : m < 4) :
    ((a.toNat % 4 * 16 + b.toNat / 16) % 16 * 16 + (b.toNat % 16 * 4 + m) / 4).toUInt8 = b := by
  have hb := b.toNat_lt
  have hn : (a.toNat % 4 * 16 + b.toNat / 16) % 16 * 16 + (b.toNat % 16 * 4 + m) / 4 = b.toNat := by
    omega
  rw [hn]
  exact UInt8.ofNat_toNat

theorem third_byte : ((b.toNat % 16 * 4 + c.toNat / 64) % 4 * 64 + c.toNat % 64).toUInt8 = c := by
  have hc := c.toNat_lt
  have hn : (b.toNat % 16 * 4 + c.toNat / 64) % 4 * 64 + c.toNat % 64 = c.toNat := by omega
  rw [hn]
  exact UInt8.ofNat_toNat

theorem triple_values : triple (a.toNat / 4) (a.toNat % 4 * 16 + b.toNat / 16)
    (b.toNat % 16 * 4 + c.toNat / 64) (c.toNat % 64) = [a, b, c] := by
  have hb := b.toNat_lt
  have hc := c.toNat_lt
  rw [triple, first_byte (by omega), second_byte (by omega), third_byte]

theorem lastQuad_two {w x : Nat} (offset : Nat) (hw : w < 64) (hx : x < 64) (h : x % 16 = 0) :
    lastQuad offset [symbol w, symbol x] = .ok [(w * 4 + x / 16).toUInt8] := by
  have hv : quadValues offset 0 none [symbol w, symbol x] = .ok [w, x] :=
    quadValues_symbols [w, x] (by simp [hw, hx])
  simp only [lastQuad, hv, bind, Except.bind, if_pos h]
  rfl

theorem lastQuad_three {w x y : Nat} (offset : Nat) (hw : w < 64) (hx : x < 64) (hy : y < 64)
    (h : y % 4 = 0) :
    lastQuad offset [symbol w, symbol x, symbol y] =
      .ok [(w * 4 + x / 16).toUInt8, (x % 16 * 16 + y / 4).toUInt8] := by
  have hv : quadValues offset 0 none [symbol w, symbol x, symbol y] = .ok [w, x, y] :=
    quadValues_symbols [w, x, y] (by simp [hw, hx, hy])
  simp only [lastQuad, hv, bind, Except.bind, if_pos h]
  rfl

theorem lastQuad_four {w x y z : Nat} (offset : Nat) (hw : w < 64) (hx : x < 64) (hy : y < 64)
    (hz : z < 64) :
    lastQuad offset [symbol w, symbol x, symbol y, symbol z] = .ok (triple w x y z) := by
  have hv : quadValues offset 0 none [symbol w, symbol x, symbol y, symbol z] = .ok [w, x, y, z] :=
    quadValues_symbols [w, x, y, z] (by simp [hw, hx, hy, hz])
  simp only [lastQuad, hv, bind, Except.bind]
  rfl

-- A quad that more symbols follow.
theorem quads_four {w x y z : Nat} {rest tail : Bytes} (hw : w < 64) (hx : x < 64) (hy : y < 64)
    (hz : z < 64) (hr : rest ≠ []) (h : quads (offset + 4) rest = .ok tail) :
    quads offset (symbol w :: symbol x :: symbol y :: symbol z :: rest) =
    .ok (triple w x y z ++ tail) := by
  cases rest
  case nil => contradiction
  case cons =>
    simp only [quads, readSymbol_symbol hw, readSymbol_symbol hx, readSymbol_symbol hy,
      readSymbol_symbol hz, h]
    rfl

theorem encode_ne_nil {bytes : Bytes} (h : bytes ≠ []) : encode bytes ≠ [] := by
  fun_cases encode bytes <;> simp_all

theorem quads_encode (bytes : Bytes) : quads offset (encode bytes) = .ok bytes := by
  fun_induction encode bytes generalizing offset
  case case1 => rfl
  case case2 a =>
    have ⟨h₁, _, h₃, _⟩ := value_lt a a
    have h := lastQuad_two offset h₁ h₃ (by omega)
    have ha := first_byte (a := a) (m := 0) (by decide)
    rw [Nat.add_zero] at ha
    rwa [ha] at h
  case case3 a b =>
    have ⟨h₁, h₂, _, h₄⟩ := value_lt a b
    have hb := b.toNat_lt
    have ha := first_byte (a := a) (m := b.toNat / 16) (by omega)
    have hb' := second_byte (a := a) (b := b) (m := 0) (by decide)
    have h := lastQuad_three offset h₁ h₂ h₄ (by omega)
    rw [Nat.add_zero] at hb'
    rwa [ha, hb'] at h
  case case4 a b c rest ih =>
    have ⟨h₁, h₂, _, _⟩ := value_lt a b
    have hc := c.toNat_lt
    have h₃ : b.toNat % 16 * 4 + c.toNat / 64 < 64 := by omega
    have h₄ : c.toNat % 64 < 64 := by omega
    by_cases hr : rest = []
    case pos =>
      subst hr
      have h := lastQuad_four offset h₁ h₂ h₃ h₄
      rwa [triple_values] at h
    case neg =>
      rw [quads_four h₁ h₂ h₃ h₄ (encode_ne_nil hr) ih, triple_values]
      rfl

theorem length_encode (bytes : Bytes) : (encode bytes).length = (4 * bytes.length + 2) / 3 := by
  fun_induction encode bytes
  case case4 ih =>
    simp only [List.length_cons, ih]
    omega
  all_goals simp

theorem decode_encode (bytes : Bytes) : decode (encode bytes) = .ok bytes := by
  have hl : (encode bytes).length % 4 ≠ 1 := by
    rw [length_encode]
    omega
  simp only [decode, loneByteFault?, if_neg hl, quads_encode]

-- The way back: what was read is what would be written.

theorem bind_eq_ok {α β : Type} {r : Except Fault α} {f : α → Except Fault β} {v : β}
    (h : r >>= f = .ok v) : ∃ u, r = .ok u ∧ f u = .ok v := by
  cases r
  case error => cases h
  case ok u  => exact ⟨u, rfl, h⟩

theorem symbol_of_value? {s : UInt8} (h : value? s = some n) : n < 64 ∧ symbol n = s := by
  have all : ∀ i : Fin 256, ∀ n ∈ value? (UInt8.ofNat i), n < 64 ∧ symbol n = UInt8.ofNat i := by
    decide +kernel
  have hs := all ⟨s.toNat, s.toNat_lt⟩ n
  rw [UInt8.ofNat_toNat] at hs
  exact hs h

theorem symbol_of_readSymbol {s : UInt8} (h : readSymbol offset s = .ok n) :
    n < 64 ∧ symbol n = s := by
  cases hv : value? s <;> simp only [readSymbol, hv] at h
  case none => contradiction
  case some =>
    cases h
    exact symbol_of_value? hv

theorem quadValues_padded {start : Nat} {quad : Bytes} {values : List Nat}
    (h : quadValues offset position (some start) quad = .ok values) : values = [] := by
  induction quad generalizing position
  case nil => cases h; rfl
  case cons s quad ih =>
    by_cases hs : s = padding
    case pos => rw [quadValues, if_pos hs] at h; exact ih h
    case neg => rw [quadValues, if_neg hs] at h; contradiction

-- Every value stands for a symbol, and the symbols that are left over are padding.
theorem quadValues_ok {quad : Bytes} {values : List Nat}
    (h : quadValues offset position none quad = .ok values) :
    (∀ n ∈ values, n < 64) ∧ values.map symbol <+: quad := by
  induction quad generalizing position values
  case nil => cases h; exact ⟨nofun, List.nil_prefix⟩
  case cons s quad ih =>
    by_cases hs : s = padding
    case pos =>
      rw [quadValues, if_pos hs] at h
      split at h
      case isTrue  => contradiction
      case isFalse => rw [quadValues_padded h]; exact ⟨nofun, List.nil_prefix⟩
    case neg =>
      rw [quadValues, if_neg hs] at h
      obtain ⟨n, hn, h⟩ := bind_eq_ok h
      obtain ⟨ns, hns, h⟩ := bind_eq_ok h
      cases h
      obtain ⟨hlt, hs⟩ := symbol_of_readSymbol hn
      obtain ⟨hall, hp⟩ := ih hns
      rw [List.map_cons, hs]
      exact ⟨List.forall_mem_cons.mpr ⟨hlt, hall⟩, List.prefix_cons_inj s |>.mpr hp⟩

-- The bytes of a group of values give the values back.

theorem encode_one {w x : Nat} (hw : w < 64) (hx : x < 64) (h : x % 16 = 0) :
    encode [(w * 4 + x / 16).toUInt8] = [symbol w, symbol x] := by
  have hb : (w * 4 + x / 16).toUInt8.toNat = w * 4 + x / 16 :=
    Nat.mod_eq_of_lt (by omega)
  have hx' : (w * 4 + x / 16) % 4 * 16 = x := by omega
  have hw' : (w * 4 + x / 16) / 4 = w := by omega
  rw [encode, hb, hw', hx']

theorem encode_two {w x y : Nat} (hw : w < 64) (hx : x < 64) (hy : y < 64) (h : y % 4 = 0) :
    encode [(w * 4 + x / 16).toUInt8, (x % 16 * 16 + y / 4).toUInt8] =
      [symbol w, symbol x, symbol y] := by
  have hb : (w * 4 + x / 16).toUInt8.toNat = w * 4 + x / 16 :=
    Nat.mod_eq_of_lt (by omega)
  have hc : (x % 16 * 16 + y / 4).toUInt8.toNat = x % 16 * 16 + y / 4 :=
    Nat.mod_eq_of_lt (by omega)
  have hw' : (w * 4 + x / 16) / 4 = w := by omega
  have hx' : (w * 4 + x / 16) % 4 * 16 + (x % 16 * 16 + y / 4) / 16 = x := by omega
  have hy' : (x % 16 * 16 + y / 4) % 16 * 4 = y := by omega
  rw [encode, hb, hc, hw', hx', hy']

theorem encode_triple {w x y z : Nat} (hw : w < 64) (hx : x < 64) (hy : y < 64) (hz : z < 64)
    (rest : Bytes) : encode (triple w x y z ++ rest) =
      symbol w :: symbol x :: symbol y :: symbol z :: encode rest := by
  have hb : (w * 4 + x / 16).toUInt8.toNat = w * 4 + x / 16 :=
    Nat.mod_eq_of_lt (by omega)
  have hc : (x % 16 * 16 + y / 4).toUInt8.toNat = x % 16 * 16 + y / 4 :=
    Nat.mod_eq_of_lt (by omega)
  have hd : (y % 4 * 64 + z).toUInt8.toNat = y % 4 * 64 + z :=
    Nat.mod_eq_of_lt (by omega)
  have hw' : (w * 4 + x / 16) / 4 = w := by omega
  have hx' : (w * 4 + x / 16) % 4 * 16 + (x % 16 * 16 + y / 4) / 16 = x := by omega
  have hy' : (x % 16 * 16 + y / 4) % 16 * 4 + (y % 4 * 64 + z) / 64 = y := by omega
  have hz' : (y % 4 * 64 + z) % 64 = z := by omega
  simp only [triple, List.cons_append, List.nil_append, encode, hb, hc, hd, hw', hx', hy', hz']

theorem encode_of_lastQuad {quad bytes : Bytes} (h : lastQuad offset quad = .ok bytes) :
    encode bytes = quad := by
  obtain ⟨values, hv, h⟩ := bind_eq_ok h
  obtain ⟨hlt, hp⟩ := quadValues_ok hv
  split at h
  case isTrue h0 =>
    cases h
    exact (List.eq_nil_of_length_eq_zero h0).symm
  split at h
  case isTrue => contradiction
  split at h
  case isTrue => contradiction
  -- As many values as symbols: none of them is padding.
  case isFalse hl =>
    have hq : values.map symbol = quad := hp.eq_of_length_le (by rw [List.length_map]; omega)
    split at h
    case h_1 =>
      split at h
      case isFalse => contradiction
      case isTrue hx =>
        cases h
        rw [encode_one (hlt _ <| by simp) (hlt _ <| by simp) hx]
        exact hq
    case h_2 =>
      split at h
      case isFalse => contradiction
      case isTrue hy =>
        cases h
        rw [encode_two (hlt _ <| by simp) (hlt _ <| by simp) (hlt _ <| by simp) hy]
        exact hq
    case h_3 =>
      cases h
      rw [← List.append_nil (triple ..), encode_triple (hlt _ <| by simp) (hlt _ <| by simp)
        (hlt _ <| by simp) (hlt _ <| by simp)]
      exact hq
    case h_4 => contradiction

theorem encode_of_quads {t bytes : Bytes} (h : quads offset t = .ok bytes) : encode bytes = t := by
  fun_induction quads offset t generalizing bytes
  case case1 a b c d e rest ih =>
    obtain ⟨w, hw, h⟩ := bind_eq_ok h
    obtain ⟨x, hx, h⟩ := bind_eq_ok h
    obtain ⟨y, hy, h⟩ := bind_eq_ok h
    obtain ⟨z, hz, h⟩ := bind_eq_ok h
    obtain ⟨tail, ht, h⟩ := bind_eq_ok h
    cases h
    obtain ⟨lw, rfl⟩ := symbol_of_readSymbol hw
    obtain ⟨lx, rfl⟩ := symbol_of_readSymbol hx
    obtain ⟨ly, rfl⟩ := symbol_of_readSymbol hy
    obtain ⟨lz, rfl⟩ := symbol_of_readSymbol hz
    rw [encode_triple lw lx ly lz, ih ht]
  case case2 => exact encode_of_lastQuad h

theorem decode_eq_ok_iff {t bytes : Bytes} : decode t = .ok bytes ↔ t = encode bytes := by
  constructor
  case mp =>
    intro h
    cases hl : loneByteFault? t <;> simp only [decode, hl] at h
    case some => contradiction
    case none => exact (encode_of_quads h).symm
  case mpr =>
    rintro rfl
    exact decode_encode bytes

end AccountCache.Text.Base64Url
