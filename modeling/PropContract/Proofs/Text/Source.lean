import PropContract.Text.Source

/-!
# The rest of a source

What stands in a source from an offset on, as characters, and what reading by offsets finds there.
-/

namespace PropContract.Text

/-! ## Bytes of characters -/

def bytesOf (cs : List Char) : List UInt8 :=
  cs.flatMap String.utf8EncodeChar

/-- How many bytes characters take. -/
def width (cs : List Char) : Nat :=
  (bytesOf cs).length

theorem bytesOf_cons (c : Char) (cs : List Char) :
    bytesOf (c :: cs) = String.utf8EncodeChar c ++ bytesOf cs := rfl

theorem bytesOf_append (cs ds : List Char) : bytesOf (cs ++ ds) = bytesOf cs ++ bytesOf ds :=
  List.flatMap_append

@[simp]
theorem width_nil : width [] = 0 := rfl

theorem width_append (cs ds : List Char) : width (cs ++ ds) = width cs + width ds := by
  simp [width, bytesOf_append]

theorem length_le_width (cs : List Char) : cs.length ≤ width cs := by
  induction cs with
  | nil => exact Nat.le_refl 0
  | cons c cs ih =>
      have hpos : 0 < c.utf8Size := Char.utf8Size_pos c
      simp only [width, bytesOf_cons, List.length_append, String.length_utf8EncodeChar,
        List.length_cons] at ih ⊢
      omega

theorem utf8EncodeChar_ascii {c : Char} (h : c.toNat < 0x80) :
    String.utf8EncodeChar c = [UInt8.ofNat c.toNat] := by
  unfold String.utf8EncodeChar
  exact if_pos (Nat.le_of_lt_succ h)

theorem ofUInt8_ascii {c : Char} (h : c.toNat < 0x80) : Char.ofUInt8 (UInt8.ofNat c.toNat) = c := by
  apply Char.ext
  apply UInt32.toNat_inj.mp
  change (UInt8.ofNat c.toNat).toUInt32.toNat = c.toNat
  rw [UInt8.toNat_toUInt32, UInt8.toNat_ofNat']
  exact Nat.mod_eq_of_lt (Nat.lt_trans h (by decide))

/-- The bytes of every other character are no bytes of characters below U+0080. -/
theorem le_of_mem_utf8EncodeChar {c : Char} {b : UInt8} (h : 0x80 ≤ c.toNat)
    (hb : b ∈ String.utf8EncodeChar c) : 0x80 ≤ b.toNat := by
  have hc : ¬ c.val.toNat ≤ 0x7f := by
    change 0x80 ≤ c.val.toNat at h
    omega
  have hbyte : ∀ n, 0x80 ≤ n → n < 0x100 → 0x80 ≤ (UInt8.ofNat n).toNat := by
    intro n hn hn'
    rw [UInt8.toNat_ofNat', Nat.mod_eq_of_lt hn']
    exact hn
  unfold String.utf8EncodeChar at hb
  simp only [if_neg hc] at hb
  split at hb
  · simp only [List.mem_cons, List.not_mem_nil, or_false] at hb
    rcases hb with rfl | rfl <;> exact hbyte _ (by omega) (by omega)
  · split at hb
    · simp only [List.mem_cons, List.not_mem_nil, or_false] at hb
      rcases hb with rfl | rfl | rfl <;> exact hbyte _ (by omega) (by omega)
    · simp only [List.mem_cons, List.not_mem_nil, or_false] at hb
      rcases hb with rfl | rfl | rfl | rfl <;> exact hbyte _ (by omega) (by omega)

theorem width_ascii {c : Char} (h : c.toNat < 0x80) (cs : List Char) :
    width (c :: cs) = width cs + 1 := by
  simp [width, bytesOf_cons, utf8EncodeChar_ascii h]

/-- What fails for all bytes outside of ASCII and for some characters, fails for all their bytes. -/
theorem false_of_mem_bytesOf {p : Char → Bool} (hp : ∀ c, 0x80 ≤ c.toNat → p c = false)
    {cs : List Char} (hcs : ∀ c ∈ cs, p c = false) {b : UInt8} (hb : b ∈ bytesOf cs) :
    p (Char.ofUInt8 b) = false := by
  obtain ⟨c, hc, hb⟩ := List.mem_flatMap.mp hb
  by_cases h : c.toNat < 0x80
  · rw [utf8EncodeChar_ascii h, List.mem_singleton] at hb
    rw [hb, ofUInt8_ascii h]
    exact hcs c hc
  · exact hp _ (le_of_mem_utf8EncodeChar (Nat.le_of_not_lt h) hb)

namespace Source

/-! ## The rest of a text -/

/-- Whether the text from `pos` on is `cs`. -/
def Rest (s : Source) (pos : Nat) (cs : List Char) : Prop :=
  ∃ before, s.bytes.data.toList = bytesOf before ++ bytesOf cs ∧ pos = width before

theorem rest_ofString (cs : List Char) : (ofString (String.ofList cs)).Rest 0 cs := by
  refine ⟨[], ?_, rfl⟩
  change (String.ofList cs).toUTF8.data.toList = _
  simp [List.utf8Encode, bytesOf]

variable {s : Source} {pos : Nat} {cs ds : List Char} {c : Char}

theorem Rest.drop (h : s.Rest pos (ds ++ cs)) : s.Rest (pos + width ds) cs := by
  obtain ⟨before, hbytes, rfl⟩ := h
  refine ⟨before ++ ds, ?_, (width_append before ds).symm⟩
  rw [hbytes, bytesOf_append, bytesOf_append, List.append_assoc]

theorem Rest.tail (h : s.Rest pos (c :: cs)) (hc : c.toNat < 0x80) : s.Rest (pos + 1) cs := by
  have hdrop : s.Rest (pos + width [c]) cs := Rest.drop (show s.Rest pos ([c] ++ cs) from h)
  rwa [width_ascii hc, width_nil] at hdrop

theorem Rest.size_eq (h : s.Rest pos cs) : s.size = pos + width cs := by
  obtain ⟨before, hbytes, rfl⟩ := h
  have hlength := congrArg List.length hbytes
  rw [List.length_append] at hlength
  exact hlength

theorem Rest.drop_bytes (h : s.Rest pos cs) : s.bytes.data.toList.drop pos = bytesOf cs := by
  obtain ⟨before, hbytes, rfl⟩ := h
  rw [hbytes]
  exact List.drop_left

theorem byte?_of_drop {bs : List UInt8} (h : s.bytes.data.toList.drop pos = bs) :
    s.byte? pos = bs.head? := by
  rw [← h, List.head?_drop, byte?, getElem?_def, getElem?_def]
  rfl

/-- The byte at an offset, by what the bytes from there on are. -/
theorem charAt_of_drop {bs : List UInt8} (h : s.bytes.data.toList.drop pos = bs) :
    s.charAt pos = Char.ofUInt8 (bs.head?.getD 0) := by
  rw [charAt, byte?_of_drop h]

theorem Rest.charAt (h : s.Rest pos (c :: cs)) (hc : c.toNat < 0x80) : s.charAt pos = c := by
  rw [charAt_of_drop h.drop_bytes, bytesOf_cons, utf8EncodeChar_ascii hc]
  exact ofUInt8_ascii hc

theorem Rest.slice (h : s.Rest pos (ds ++ cs)) :
    s.slice pos (pos + width ds) = String.ofList ds := by
  have hsize := h.size_eq
  rw [width_append] at hsize
  have hextract : s.bytes.extract pos (pos + width ds) = ds.utf8Encode := by
    obtain ⟨before, hbytes, rfl⟩ := h
    apply ByteArray.ext
    apply Array.ext'
    rw [ByteArray.data_extract, Array.toList_extract, hbytes]
    simp [width, List.utf8Encode, bytesOf]
  rw [Source.slice, if_pos ⟨Nat.le_add_right _ _, by omega⟩, hextract, String.fromUTF8?,
    dif_pos ByteArray.isValidUTF8_utf8Encode]
  rfl

/-! ## Searching -/

theorem findIn_skip {p : Char → Bool} {bs rest : List UInt8}
    (hbs : ∀ b ∈ bs, p (Char.ofUInt8 b) = false)
    (h : s.bytes.data.toList.drop pos = bs ++ rest) (n : Nat) :
    s.findIn p (bs.length + n) pos = s.findIn p n (pos + bs.length) := by
  induction bs generalizing pos with
  | nil => simp
  | cons b bs ih =>
      have hdrop : s.bytes.data.toList.drop (pos + 1) = bs ++ rest := by
        rw [← List.drop_drop, h]
        rfl
      have hb := hbs b List.mem_cons_self
      have hsucc : (b :: bs).length + n = (bs.length + n) + 1 := by
        simp only [List.length_cons]
        omega
      rw [hsucc, findIn, charAt_of_drop h]
      simp only [List.cons_append, List.head?_cons, Option.getD_some, hb, Bool.false_eq_true,
        if_false, List.length_cons]
      rw [ih (fun x hx => hbs x (List.mem_cons_of_mem _ hx)) hdrop, Nat.add_right_comm, Nat.add_assoc]

/-- A search goes past characters without the property, which no byte outside of ASCII has. -/
theorem Rest.find?_skip {p : Char → Bool} (hp : ∀ c, 0x80 ≤ c.toNat → p c = false)
    (hds : ∀ d ∈ ds, p d = false) (h : s.Rest pos (ds ++ cs)) :
    s.find? p pos = s.find? p (pos + width ds) := by
  have hsize := h.size_eq
  have hbytes := h.drop_bytes
  rw [width_append] at hsize
  rw [bytesOf_append] at hbytes
  have hn : s.size - pos = width ds + (s.size - (pos + width ds)) := by omega
  rw [Source.find?, hn]
  exact findIn_skip (fun b hb => false_of_mem_bytesOf hp hds hb) hbytes _

theorem Rest.find?_here {p : Char → Bool} (hc : p c = true) (hascii : c.toNat < 0x80)
    (h : s.Rest pos (c :: cs)) : s.find? p pos = some pos := by
  have hsize := h.size_eq
  rw [width_ascii hascii] at hsize
  have hn : s.size - pos = width cs + 1 := by omega
  rw [Source.find?, hn, findIn, h.charAt hascii, if_pos hc]

/-- The end of a run of characters with a property that all bytes outside of ASCII have. -/
theorem Rest.skipWhile {p : Char → Bool} (hp : ∀ c, 0x80 ≤ c.toNat → p c = true)
    (hds : ∀ d ∈ ds, p d = true) (hc : p c = false) (h : s.Rest pos (ds ++ c :: cs)) :
    s.skipWhile p pos = pos + width ds := by
  have hascii : c.toNat < 0x80 := by
    apply Nat.lt_of_not_le
    intro hle
    simp [hp c hle] at hc
  have hskip := h.find?_skip (p := fun c => !p c) (fun c hle => by simp [hp c hle])
    (fun d hd => by simp [hds d hd])
  rw [Source.skipWhile, hskip, h.drop.find?_here (by simp [hc]) hascii, Option.getD_some]

/-- Bytes stand at an offset if and only if the bytes from there on begin with them. -/
theorem holdsAt_of_drop {bs : List UInt8} (h : s.bytes.data.toList.drop pos = bs)
    (hpos : pos ≤ s.size) (w : List UInt8) : s.holdsAt pos w = w.isPrefixOf bs := by
  induction w generalizing pos bs with
  | nil => simp [holdsAt, hpos]
  | cons b w ih =>
      have hbyte := byte?_of_drop h
      cases bs with
      | nil => simp [holdsAt, hbyte]
      | cons x bs =>
          have hlength := congrArg List.length h
          have hdrop : s.bytes.data.toList.drop (pos + 1) = bs := by
            rw [← List.drop_drop, h]
            rfl
          have hlt : pos + 1 ≤ s.size := by
            simp only [List.length_drop, List.length_cons, Array.length_toList] at hlength
            change pos + 1 ≤ s.bytes.data.size
            omega
          simp only [holdsAt, hbyte, List.head?_cons, ih hdrop hlt, List.isPrefixOf]
          rw [Option.some_beq_some, Bool.beq_comm]

theorem Rest.holdsAt (h : s.Rest pos cs) (w : List UInt8) :
    s.holdsAt pos w = w.isPrefixOf (bytesOf cs) :=
  holdsAt_of_drop h.drop_bytes (by rw [h.size_eq]; exact Nat.le_add_right _ _) w

/-- A word stands only where the text begins with its first character. -/
theorem Rest.startsWithAt_eq_false {w : String} {d : Char} (hw : w.toList = d :: ds)
    (hd : d.toNat < 0x80) (hc : c.toNat < 0x80) (hne : c ≠ d) (h : s.Rest pos (c :: cs)) :
    s.startsWithAt pos w = false := by
  have hbytes : w.toUTF8.data.toList = UInt8.ofNat d.toNat :: bytesOf ds := by
    rw [String.toUTF8_eq_toByteArray, ← String.utf8Encode_toList, hw]
    simp [List.utf8Encode, bytesOf, utf8EncodeChar_ascii hd]
  have hbyte : UInt8.ofNat d.toNat ≠ UInt8.ofNat c.toNat := by
    intro heq
    have hchar := congrArg Char.ofUInt8 heq
    rw [ofUInt8_ascii hd, ofUInt8_ascii hc] at hchar
    exact hne hchar.symm
  rw [startsWithAt, hbytes, h.holdsAt, bytesOf_cons, utf8EncodeChar_ascii hc]
  simp [List.isPrefixOf, hbyte]

end Source

end PropContract.Text
