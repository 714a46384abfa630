import PropContract.Proofs.Text.Boundary
import PropContract.Token.Opaque

/-!
# Searches that have enough steps

Every loop over a text has one step for each byte that is left, so it does not run out of steps before
the text ends. Of such a loop it is enough to say where it goes on: what it finds from the later offset on,
it finds from the earlier one.
-/

namespace PropContract

namespace Text

theorem exists_utf8EncodeChar (c : Char) : ∃ b bs, String.utf8EncodeChar c = b :: bs := by
  apply List.exists_cons_of_ne_nil
  rw [← List.length_pos_iff, String.length_utf8EncodeChar]
  exact c.utf8Size_pos

theorem add_width_ascii {c : Char} (hc : c.toNat < 0x80) (pos : Nat) (cs : List Char) :
    pos + width (c :: cs) = pos + 1 + width cs := by
  rw [width_ascii hc]
  omega

theorem lt_width (pos : Nat) (c : Char) (cs : List Char) : pos < pos + width (c :: cs) := by
  have hlength : (c :: cs).length ≤ width (c :: cs) := length_le_width _
  rw [List.length_cons] at hlength
  omega

/-- No byte outside of ASCII is one of some ASCII characters. -/
theorem wide {marks : List Char} (hmarks : marks.all (·.toNat < 0x80)) (d : Char) (hd : 0x80 ≤ d.toNat) :
    marks.contains d = false := by
  apply Bool.eq_false_iff.mpr
  intro hmem
  have hascii := List.all_eq_true.mp hmarks d (List.contains_iff_mem.mp hmem)
  simp at hascii
  omega

namespace Source

variable {s : Source} {pos : Nat} {c : Char} {cs : List Char} {p : Char → Bool}

theorem Rest.lt_size (h : s.Rest pos (c :: cs)) : pos < s.size := by
  rw [h.size_eq]
  exact lt_width pos c cs

/-- A test of the byte at an offset is one of the character there, if it comes out the same for all bytes
outside of ASCII. -/
theorem Rest.test {b : Bool} (hp : ∀ d, 0x80 ≤ d.toNat → p d = b) (hc : p c = b) (h : s.Rest pos (c :: cs)) :
    p (s.charAt pos) = b := by
  by_cases hascii : c.toNat < 0x80
  · rw [h.charAt hascii, hc]
  · rw [charAt_of_drop h.drop_bytes, bytesOf_cons]
    obtain ⟨x, xs, hencode⟩ := exists_utf8EncodeChar c
    rw [hencode]
    apply hp
    apply le_of_mem_utf8EncodeChar (Nat.le_of_not_lt hascii)
    rw [hencode]
    exact List.mem_cons_self

theorem Rest.charAt_ne {x : Char} (hx : x.toNat < 0x80) (hne : c ≠ x) (h : s.Rest pos (c :: cs)) :
    s.charAt pos ≠ x := by
  have htest : [x].contains (s.charAt pos) = false :=
    h.test (wide (by simpa using hx)) (by simpa using hne)
  simpa using htest

theorem Rest.next (h : s.Rest pos (c :: cs)) : s.Rest (pos + width [c]) cs :=
  Rest.drop (show s.Rest pos ([c] ++ cs) from h)

theorem Rest.next_next {d : Char} (h : s.Rest pos (c :: d :: cs)) : s.Rest (pos + width [c, d]) cs :=
  Rest.drop (show s.Rest pos ([c, d] ++ cs) from h)

/-- A search for a character finds the first one. -/
theorem Rest.find?_first {x : Char} {ds : List Char} (hx : x.toNat < 0x80) (hds : x ∉ ds)
    (h : s.Rest pos (ds ++ x :: cs)) : s.find? (· == x) pos = some (pos + width ds) := by
  have hskip := h.find?_skip (p := (· == x)) (fun d hd => ?_) (fun d hd => ?_)
  · rw [hskip]
    exact h.drop.find?_here (beq_self_eq_true x) hx
  · apply beq_false_of_ne
    rintro rfl
    omega
  · apply beq_false_of_ne
    rintro rfl
    exact hds hd

/-- A search goes past what is left of a character behind its first byte. -/
theorem Rest.find?_inside (hp : ∀ d, 0x80 ≤ d.toNat → p d = false) (h : s.Rest pos (c :: cs)) :
    s.find? p (pos + 1) = s.find? p (pos + width [c]) := by
  by_cases hascii : c.toNat < 0x80
  · rw [width_ascii hascii, width_nil]
  · obtain ⟨x, xs, hencode⟩ := exists_utf8EncodeChar c
    have hwidth : width [c] = xs.length + 1 := by
      rw [width, bytesOf, List.flatMap_singleton, hencode, List.length_cons]
    have hdrop : s.bytes.data.toList.drop (pos + 1) = xs ++ bytesOf cs := by
      rw [← List.drop_drop, h.drop_bytes, bytesOf_cons, hencode]
      rfl
    have hsize := h.next.size_eq
    have hsteps : s.size - (pos + 1) = xs.length + (s.size - (pos + width [c])) := by omega
    rw [Source.find?, hsteps, findIn_skip (fun b hb => ?_) hdrop, hwidth, Nat.add_assoc pos 1,
      Nat.add_comm 1, Source.find?]
    exact hp _ (le_of_mem_utf8EncodeChar (Nat.le_of_not_lt hascii) (hencode ▸ List.mem_cons_of_mem _ hb))

end Source

end Text

namespace Token

open Text

variable {α : Type} {s : Source} {pos mid stop : Nat} {search search' search'' : Nat → Nat → Option α}

/-- Whether a search finds `r` from an offset on, if it has a step for every byte behind the offset. -/
def Finds (s : Source) (search : (n pos : Nat) → Option α) (pos : Nat) (r : α) : Prop :=
  ∀ n, s.size - pos ≤ n → search n pos = some r

/-- Whether a search from `pos` goes on as another from `stop`. -/
def Leads (s : Source) (search search' : (n pos : Nat) → Option α) (pos stop : Nat) : Prop :=
  ∀ r, Finds s search' stop r → Finds s search pos r

/-- The step that finds something. -/
theorem Finds.of_step {r : α} (hsize : pos < s.size) (h : ∀ n, search (n + 1) pos = some r) :
    Finds s search pos r := by
  intro n hn
  obtain ⟨m, rfl⟩ : ∃ m, n = m + 1 := ⟨n - 1, by omega⟩
  exact h m

namespace Leads

theorem refl : Leads s search search pos pos := fun _ h => h

theorem trans (h : Leads s search search' pos mid) (h' : Leads s search' search'' mid stop) :
    Leads s search search'' pos stop :=
  fun r hr => h r (h' r hr)

theorem of_step (hsize : pos < s.size) (hlt : pos < stop) (h : ∀ n, search (n + 1) pos = search' n stop) :
    Leads s search search' pos stop := by
  intro r hr n hn
  obtain ⟨m, rfl⟩ : ∃ m, n = m + 1 := ⟨n - 1, by omega⟩
  rw [h, hr m (by omega)]

/-- A step that looks for the next mark goes on at once where there is none. -/
theorem of_same (hsize : pos < s.size) (hle : pos ≤ stop) (h : ∀ n, search (n + 1) pos = search' (n + 1) stop) :
    Leads s search search' pos stop := by
  intro r hr n hn
  obtain ⟨m, rfl⟩ : ∃ m, n = m + 1 := ⟨n - 1, by omega⟩
  rw [h, hr (m + 1) (by omega)]

/-- Two stretches of a text, one behind the other. -/
theorem append {cs ds : List Char} (h : Leads s search search' pos (pos + width cs))
    (h' : Leads s search' search'' (pos + width cs) (pos + width cs + width ds)) :
    Leads s search search'' pos (pos + width (cs ++ ds)) := by
  rw [width_append, ← Nat.add_assoc]
  exact h.trans h'

theorem finds {cs ds : List Char} {search search' : Nat → Nat → Option Nat}
    (h : Leads s search search' pos (pos + width cs))
    (hr : Finds s search' (pos + width cs) (pos + width cs + width ds)) :
    Finds s search pos (pos + width (cs ++ ds)) := by
  rw [width_append, ← Nat.add_assoc]
  exact h _ hr

variable {marks : List Char} (hmarks : marks.all (·.toNat < 0x80)) {c : Char} {cs : List Char}

include hmarks

/-- A search that goes byte by byte where no mark stands goes past a character that is none. -/
theorem char (hc : c ∉ marks)
    (hstep : ∀ q, q < s.size → s.charAt q ∉ marks → ∀ n, search (n + 1) q = search n (q + 1))
    (h : s.Rest pos (c :: cs)) : Leads s search search pos (pos + width [c]) := by
  have bytes : ∀ {bs rest : List UInt8} {pos : Nat}, (∀ b ∈ bs, marks.contains (Char.ofUInt8 b) = false) →
      pos + bs.length ≤ s.size → s.bytes.data.toList.drop pos = bs ++ rest →
      Leads s search search pos (pos + bs.length) := by
    intro bs rest
    induction bs with
    | nil => exact fun _ _ _ => refl
    | cons b bs ih =>
        intro pos hbs hsize hdrop
        rw [List.length_cons] at hsize
        have hdrop' : s.bytes.data.toList.drop (pos + 1) = bs ++ rest := by
          rw [← List.drop_drop, hdrop]
          rfl
        have hbyte : s.charAt pos ∉ marks := by
          rw [Source.charAt_of_drop hdrop]
          simpa using hbs b List.mem_cons_self
        have hrest : Leads s search search (pos + 1) (pos + 1 + bs.length) :=
          ih (fun x hx => hbs x (List.mem_cons_of_mem _ hx)) (by omega) hdrop'
        rw [List.length_cons, Nat.add_comm bs.length, ← Nat.add_assoc]
        exact (of_step (by omega) (Nat.lt_succ_self pos) (hstep pos (by omega) hbyte)).trans hrest
  have hsize := h.next.size_eq
  have hdrop : s.bytes.data.toList.drop pos = bytesOf [c] ++ bytesOf cs := by
    rw [← bytesOf_append]
    exact h.drop_bytes
  refine bytes (fun b hb => false_of_mem_bytesOf (wide hmarks) (fun d hd => ?_) hb) ?_ hdrop
  · rw [List.mem_singleton.mp hd]
    simpa using hc
  · change pos + width [c] ≤ s.size
    omega

variable (hsame : ∀ q q', s.find? marks.contains q = s.find? marks.contains q' →
  ∀ n, search (n + 1) q = search (n + 1) q')

include hsame

/-- A search for marks goes past a character that is none. -/
theorem unmarked (hc : c ∉ marks) (h : s.Rest pos (c :: cs)) : Leads s search search pos (pos + width [c]) := by
  apply of_same h.lt_size (Nat.le_add_right _ _)
  apply hsame
  refine Source.Rest.find?_skip (wide hmarks) (fun d hd => ?_) (show s.Rest pos ([c] ++ cs) from h)
  rw [List.mem_singleton.mp hd]
  simpa using hc

/-- A search for marks goes past an escaped character, which it enters behind the first byte. -/
theorem escaped (h : s.Rest pos ('\\' :: c :: cs)) (hstep : ∀ n, search (n + 1) pos = search n (pos + 2)) :
    Leads s search search pos (pos + width ['\\', c]) := by
  have hinside : s.Rest (pos + 1) (c :: cs) := h.tail (by decide)
  have hpos : 1 ≤ width [c] := length_le_width [c]
  have hsize := hinside.next.size_eq
  rw [add_width_ascii (by decide)]
  apply (of_step h.lt_size (by omega) hstep).trans
  by_cases hend : pos + 2 = pos + 1 + width [c]
  · rw [hend]
    exact refl
  · exact of_same (by omega) (by omega) (hsame _ _ (hinside.find?_inside (wide hmarks)))

end Leads

end Token

end PropContract
