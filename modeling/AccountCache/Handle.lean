namespace AccountCache

abbrev Handle := UInt64

-- The signed number with the bits of a handle. Rows are ordered by it.
abbrev Key := Int64

def Handle.key (h : Handle) : Key := h.toInt64

def Key.handle (k : Key) : Handle := k.toUInt64

@[simp]
theorem Handle.handle_key (h : Handle) : Key.handle (Handle.key h) = h := by
  simp [Handle.key, Key.handle]

@[simp]
theorem Key.key_handle (k : Key) : Handle.key (Key.handle k) = k := by
  simp [Handle.key, Key.handle]

theorem Handle.key_injective {h₁ h₂ : Handle} (h : Handle.key h₁ = Handle.key h₂) : h₁ = h₂ := by
  rw [← Handle.handle_key h₁, h, Handle.handle_key]

end AccountCache
