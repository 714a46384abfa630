import PropContract.Proofs.Token.Agree
import PropContract.Proofs.Token.Suffix

/-!
# Surroundings

What is stepped over is known by its own text: nothing that stands before its first byte or behind its last
one moves its end, whether or not brackets and slashes in it are taken for what they are.
-/

namespace PropContract.Token

open Text

variable {before text behind : String} {level pos stop : Nat} {o : Opaque}

theorem opaqueEnd_append_right (hstop : stop ≤ text.utf8ByteSize) :
    opaqueEnd (.ofString (text ++ behind)) level o pos = some stop ↔
      opaqueEnd (.ofString text) level o pos = some stop := by
  have hagree := Source.agree_front text behind
  exact ⟨fun hend => opaqueEnd_agree hagree hend hstop, fun hend => opaqueEnd_agree hagree.symm hend hstop⟩

theorem opaqueEnd_append_left (hopen : o = .group → (closer? ((Source.ofString text).charAt 0)).isSome = true) :
    opaqueEnd (.ofString (before ++ text)) level o before.utf8ByteSize = some (before.utf8ByteSize + stop) ↔
      opaqueEnd (.ofString text) level o 0 = some stop := by
  have hend := opaqueEnd_suffix (Source.endsWith_append before text) level o hopen
  rw [Nat.add_zero] at hend
  rw [hend, Option.map_eq_some_iff]
  constructor
  · rintro ⟨found, hfound, heq⟩
    rwa [← Nat.add_left_cancel heq]
  · exact fun hfound => ⟨stop, hfound, rfl⟩

/-- A text in the middle of another one is stepped over as a whole exactly when it is alone. -/
theorem opaqueEnd_surrounded
    (hopen : o = .group → (closer? ((Source.ofString (text ++ behind)).charAt 0)).isSome = true) :
    opaqueEnd (.ofString (before ++ text ++ behind)) level o before.utf8ByteSize =
        some (before.utf8ByteSize + text.utf8ByteSize) ↔
      opaqueEnd (.ofString text) level o 0 = some text.utf8ByteSize := by
  rw [String.append_assoc, opaqueEnd_append_left hopen]
  exact opaqueEnd_append_right (Nat.le_refl _)

theorem charAt_opener {opener : Char} {cs : List Char} (hopener : opener ∈ ['{', '(', '['])
    (htext : text.toList = opener :: cs) : (Source.ofString (text ++ behind)).charAt 0 = opener := by
  have hrest : (Source.ofString (text ++ behind)).Rest 0 (opener :: (cs ++ behind.toList)) := by
    have hall := (Source.ofString (text ++ behind)).rest_zero
    rwa [Source.ofString, String.toList_append, htext] at hall
  have hascii : opener.toNat < 0x80 := by
    simp only [List.mem_cons, List.not_mem_nil, or_false] at hopener
    rcases hopener with rfl | rfl | rfl <;> decide
  exact hrest.charAt hascii

/-- A group is stepped over in all surroundings or in none. -/
theorem groupEnd_surroundings (hopen : ∃ opener ∈ ['{', '(', '['], ∃ cs, text.toList = opener :: cs)
    (before behind before' behind' : String) :
    groupEnd (.ofString (before ++ text ++ behind)) before.utf8ByteSize =
        some (before.utf8ByteSize + text.utf8ByteSize) ↔
      groupEnd (.ofString (before' ++ text ++ behind')) before'.utf8ByteSize =
        some (before'.utf8ByteSize + text.utf8ByteSize) := by
  obtain ⟨opener, hopener, cs, htext⟩ := hopen
  have hclose : (closer? opener).isSome = true := by
    simp only [List.mem_cons, List.not_mem_nil, or_false] at hopener
    rcases hopener with rfl | rfl | rfl <;> rfl
  have hfirst (behind : String) :
      Opaque.group = .group → (closer? ((Source.ofString (text ++ behind)).charAt 0)).isSome = true := by
    intro _
    rwa [charAt_opener hopener htext]
  exact (opaqueEnd_surrounded (hfirst behind)).trans (opaqueEnd_surrounded (hfirst behind')).symm

/-- The first brace that closes in `{i++/}/i}` stands behind a division, and is stepped over with it: the
slash behind `++` is taken for the beginning of a regular expression. -/
theorem groupEnd_surroundings_misread :
    let text := "\x7bi++/\x7d/i\x7d"
    (∃ opener ∈ ['{', '(', '['], ∃ cs, text.toList = opener :: cs) ∧
      groupEnd (.ofString ("" ++ text ++ "")) 0 = some 9 ∧
      groupEnd (.ofString ("/[`" ++ text ++ "\x7d*/")) 3 = some 12 := by
  intro text
  have hopen : ∃ opener ∈ ['{', '(', '['], ∃ cs, text.toList = opener :: cs :=
    ⟨'{', by decide, text.toList.tail, by decide⟩
  have halone : groupEnd (.ofString ("" ++ text ++ "")) 0 = some 9 := by decide +kernel
  exact ⟨hopen, halone, (groupEnd_surroundings hopen "" "" "/[`" "\x7d*/").mp halone⟩

end PropContract.Token
