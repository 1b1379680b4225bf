import Scriptlet.Proofs.Layout
import Scriptlet.Repl

/-!
# Lines in groups

Lines are joined to chunks, and a line break goes between two lines of one chunk. Whether something is
pending is read off the bytes collected so far, which would be wrong for a blank first line; but a
chunk that is blank is complete, so as long as lines are pending some byte is. The invariant of a
reader is therefore the group of the lines that are pending: none of its first lines made a chunk.

## Main definitions

* `Repl.joined`, `Repl.codeOf`: the bytes of a group of lines, and its text
* `Repl.Wants`: a text that is no command and breaks off too early
* `Repl.Unfinished`, `Repl.Finished`: a group that needs more lines, and one that is a chunk
* `Repl.handled`: the chunks that a session gets to

## Main statements

* `Repl.Unfinished.feed_eq`: what one more line does
* `Repl.Unfinished.exists_groups`: the lines of an input in groups
* `Repl.run_eq_handled`: a session handles the chunks of its lines
* `Repl.chunks_eq_groups`: the chunks are consecutive groups of lines, each as short as can be
-/

namespace Scriptlet.Repl

/-- The lines of a group with a line break between any two. -/
def joined (group : List (List UInt8)) : List UInt8 := [10].intercalate group

/-- The text of a chunk. -/
def codeOf (chunk : List UInt8) : String := String.ofList (Text.decode chunk)

/-- A text that is no command, and that is not complete as a source. -/
structure Wants (maxDepth : Int) (code : String) : Prop where
  notCommand : ¬ isCommand code
  incomplete : ∃ e, Parser.parse maxDepth.toNat code = .error e ∧ e.incomplete

/-- The lines of a chunk that needs more of them, from its first line on. -/
def Unfinished (maxDepth : Int) (group : List (List UInt8)) : Prop :=
  ∀ first, first <+: group → first ≠ [] → Wants maxDepth (codeOf (joined first))

/-- The lines of a chunk: it needed all of them, and no more. -/
structure Finished (maxDepth : Int) (group : List (List UInt8)) : Prop where
  ne_nil : group ≠ []
  wants : ∀ first, first <+: group → first ≠ [] → first ≠ group →
    Wants maxDepth (codeOf (joined first))
  complete : ¬ Wants maxDepth (codeOf (joined group))

variable {maxDepth : Int} {group : List (List UInt8)} {line : List UInt8}

theorem isIncomplete_iff {code : String} : isIncomplete maxDepth code ↔ Wants maxDepth code := by
  unfold isIncomplete
  split
  · rename_i hc
    exact ⟨nofun, fun h => absurd hc h.notCommand⟩
  · rename_i hc
    split
    · rename_i nodes hp
      refine ⟨nofun, fun h => ?_⟩
      obtain ⟨e, he, -⟩ := h.incomplete
      simp [hp] at he
    · rename_i e hp
      refine ⟨fun h => ⟨hc, e, hp, h⟩, fun h => ?_⟩
      obtain ⟨e', he, hi⟩ := h.incomplete
      obtain rfl : e = e' := by simpa [hp] using he
      exact hi

/-! ## One line -/

@[simp] theorem joined_nil : joined [] = [] := rfl

theorem joined_concat (h : group ≠ []) : joined (group ++ [line]) = joined group ++ 10 :: line := by
  induction group with
  | nil => exact absurd rfl h
  | cons first group ih =>
    by_cases hg : group = []
    · simp [joined, hg]
    · simp only [joined] at ih ⊢
      rw [List.cons_append, List.intercalate_cons_of_ne_nil (by simp), ih hg,
        List.intercalate_cons_of_ne_nil hg]
      simp

/-- Nothing is a complete source. -/
theorem not_wants_nil : ¬ Wants maxDepth (codeOf []) := by
  intro h
  obtain ⟨e, he, -⟩ := h.incomplete
  have hp : Parser.parse maxDepth.toNat (codeOf []) = .ok [] := by
    rw [Parser.parse_eq_ok_iff]
    simp [codeOf, Text.decode, Parser.run, Parser.feed, Parser.State.initial, Parser.atTop,
      Token.endOfInput]
  simp [hp] at he

/-- As long as a line is pending, so is a byte. -/
theorem Unfinished.isEmpty_joined (h : Unfinished maxDepth group) :
    (joined group).isEmpty ↔ group = [] := by
  refine ⟨fun he => ?_, fun he => by simp [he]⟩
  by_contra hg
  have hw := h group List.prefix_rfl hg
  rw [List.isEmpty_iff.mp he] at hw
  exact not_wants_nil hw

/-- One more line goes on with the group, and makes a chunk of it unless that still needs more. -/
theorem Unfinished.feed_eq (h : Unfinished maxDepth group) (line : List UInt8) :
    (⟨joined group⟩ : Reader).feed maxDepth line =
      if isIncomplete maxDepth (codeOf (joined (group ++ [line]))) then
        (none, ⟨joined (group ++ [line])⟩)
      else (some (joined (group ++ [line])), {}) := by
  have hchunk : (if (joined group).isEmpty then line else joined group ++ 10 :: line) =
      joined (group ++ [line]) := by
    split
    · rename_i he
      simp [h.isEmpty_joined.mp he, joined]
    · rename_i he
      exact (joined_concat (mt h.isEmpty_joined.mpr he)).symm
  rw [Reader.feed, hchunk]
  rfl

theorem unfinished_nil : Unfinished maxDepth [] := by
  intro first hf hn
  exact absurd (List.prefix_nil.mp hf) hn

theorem Unfinished.concat (h : Unfinished maxDepth group)
    (hw : Wants maxDepth (codeOf (joined (group ++ [line])))) :
    Unfinished maxDepth (group ++ [line]) := by
  intro first hf hn
  rcases List.prefix_concat_iff.mp hf with rfl | hf
  · exact hw
  · exact h first hf hn

theorem Unfinished.finished (h : Unfinished maxDepth group)
    (hw : ¬ Wants maxDepth (codeOf (joined (group ++ [line])))) :
    Finished maxDepth (group ++ [line]) where
  ne_nil := by simp
  wants := by
    intro first hf hn hne
    rcases List.prefix_concat_iff.mp hf with rfl | hf
    · exact absurd rfl hne
    · exact h first hf hn
  complete := hw

/-! ## All lines -/

-- What a line does is known from here on, and unfolding it would evaluate the parser.
attribute [local irreducible] Reader.feed handle

theorem chunks_cons (maxDepth : Int) (r : Reader) (line : List UInt8) (lines : List (List UInt8)) :
    r.chunks maxDepth (line :: lines) =
      match r.feed maxDepth line with
      | (none, r) => r.chunks maxDepth lines
      | (some chunk, r) =>
        (chunk :: (r.chunks maxDepth lines).1, (r.chunks maxDepth lines).2) := rfl

/-- The induction is on the lines still to be read, for every group that is pending. -/
theorem Unfinished.exists_groups (h : Unfinished maxDepth group) (lines : List (List UInt8)) :
    ∃ (groups : List (List (List UInt8))) (rest : List (List UInt8)),
      group ++ lines = groups.flatten ++ rest ∧
      (⟨joined group⟩ : Reader).chunks maxDepth lines = (groups.map joined, ⟨joined rest⟩) ∧
      (∀ g ∈ groups, Finished maxDepth g) ∧ Unfinished maxDepth rest := by
  induction lines generalizing group with
  | nil => exact ⟨[], group, by simp, rfl, nofun, h⟩
  | cons line lines ih =>
    rw [List.append_cons]
    by_cases hw : Wants maxDepth (codeOf (joined (group ++ [line])))
    · obtain ⟨groups, rest, heq, hc, hg, hr⟩ := ih (h.concat hw)
      refine ⟨groups, rest, heq, ?_, hg, hr⟩
      simp only [chunks_cons, h.feed_eq, isIncomplete_iff.mpr hw, if_true, hc]
    · obtain ⟨groups, rest, heq, hc, hg, hr⟩ := ih unfinished_nil
      refine ⟨(group ++ [line]) :: groups, rest, by simp [← heq], ?_, ?_, hr⟩
      · have hi : isIncomplete maxDepth (codeOf (joined (group ++ [line]))) = false :=
          Bool.eq_false_iff.mpr (mt isIncomplete_iff.mp hw)
        rw [joined_nil] at hc
        simp [chunks_cons, h.feed_eq, hi, hc]
      · exact List.forall_mem_cons.mpr ⟨h.finished hw, hg⟩

/-- The chunks that a session gets to, until one of them ends it. -/
def handled (cfg : Session.Config) (s : State) : List (List UInt8) → State × Bool
  | [] => (s, false)
  | chunk :: chunks =>
    let r := handle cfg s (codeOf chunk)
    if r.quit then (r.state, true) else handled cfg r.state chunks

theorem run_cons (cfg : Config) (c : Console) (line : List UInt8) (lines : List (List UInt8)) :
    (run cfg c (line :: lines)).1 =
      if (step cfg c line).1.quit then (step cfg c line).1
      else (run cfg (step cfg c line).1 lines).1 := by
  show (if (step cfg c line).1.quit then _ else _ : Console × Written).1 = _
  split <;> rfl

theorem step_of_feed_eq_none {cfg : Config} {c : Console} {line : List UInt8} {reader : Reader}
    (h : c.reader.feed cfg.maxDepth line = (none, reader)) :
    (step cfg c line).1 = { c with reader } := by
  delta step
  rw [h]

/-- A chunk that is complete is handled at once. -/
theorem exists_step_of_feed {cfg : Config} {c : Console} {line chunk : List UInt8} {reader : Reader}
    (h : c.reader.feed cfg.maxDepth line = (some chunk, reader)) :
    ∃ history, (step cfg c line).1 =
      ⟨reader, (handle cfg.toConfig c.state (codeOf chunk)).state, history,
        (handle cfg.toConfig c.state (codeOf chunk)).quit⟩ := by
  delta step
  rw [h]
  exact ⟨_, rfl⟩

/-- A session handles the chunks of its lines, and no line otherwise. -/
theorem run_eq_handled (cfg : Config) (c : Console) (hq : c.quit = false)
    (lines : List (List UInt8)) :
    ((run cfg c lines).1.state, (run cfg c lines).1.quit) =
      handled cfg.toConfig c.state (c.reader.chunks cfg.maxDepth lines).1 := by
  induction lines generalizing c with
  | nil => exact congrArg (c.state, ·) hq
  | cons line lines ih =>
    rw [run_cons]
    generalize hf : c.reader.feed cfg.maxDepth line = fed
    obtain ⟨chunk, reader⟩ := fed
    cases chunk with
    | none =>
      have ih := ih { c with reader } hq
      simpa [step_of_feed_eq_none hf, hq, chunks_cons, hf] using ih
    | some chunk =>
      obtain ⟨history, hstep⟩ := exists_step_of_feed hf
      simp only [hstep, chunks_cons, hf, handled]
      split
      · rename_i hquit
        simp [hquit]
      · rename_i hquit
        exact ih _ (by simpa using hquit)

/--
Reading lines makes consecutive groups of them. In each group all but the last line made a text that is
no command and breaks off, and with the last line it is a command or does not break off. The lines left
over at the end make texts that all break off. A session is handed the chunks in their order, until one
ends it, and a chunk whose lines have no line breaks of their own can be taken apart into its lines.
-/
theorem chunks_eq_groups (maxDepth : Int) (lines : List (List UInt8)) :
    ∃ (groups : List (List (List UInt8))) (rest : List (List UInt8)),
      lines = groups.flatten ++ rest ∧
      ({} : Reader).chunks maxDepth lines = (groups.map joined, ⟨joined rest⟩) ∧
      (∀ group ∈ groups, group ≠ [] ∧
        (∀ first, first <+: group → first ≠ [] → first ≠ group →
          ¬ isCommand (codeOf (joined first)) ∧
            ∃ e, Parser.parse maxDepth.toNat (codeOf (joined first)) = .error e ∧ e.incomplete) ∧
        (isCommand (codeOf (joined group)) ∨
          ¬ ∃ e, Parser.parse maxDepth.toNat (codeOf (joined group)) = .error e ∧ e.incomplete)) ∧
      (∀ first, first <+: rest → first ≠ [] →
        ∃ e, Parser.parse maxDepth.toNat (codeOf (joined first)) = .error e ∧ e.incomplete) ∧
      ((∀ line ∈ lines, 10 ∉ line) →
        groups = (({} : Reader).chunks maxDepth lines).1.map (·.splitOn 10)) ∧
      ∀ (cfg : Config) (c : Console), cfg.maxDepth = maxDepth → c.reader = {} → c.quit = false →
        ((run cfg c lines).1.state, (run cfg c lines).1.quit) =
          handled cfg.toConfig c.state (groups.map joined) := by
  have hnil : Unfinished maxDepth [] := unfinished_nil
  obtain ⟨groups, rest, heq, hc, hg, hr⟩ := hnil.exists_groups lines
  rw [List.nil_append] at heq
  rw [joined_nil] at hc
  refine ⟨groups, rest, heq, hc, fun group hm => ?_, fun first hf hn => (hr first hf hn).incomplete,
    fun hl => ?_, ?_⟩
  · obtain ⟨hne, hwants, hcomplete⟩ := hg group hm
    refine ⟨hne, fun first hf hn hp => ?_, ?_⟩
    · exact ⟨(hwants first hf hn hp).notCommand, (hwants first hf hn hp).incomplete⟩
    · by_contra hboth
      rw [not_or, not_not] at hboth
      exact hcomplete ⟨hboth.1, hboth.2⟩
  · have hsplit : ∀ group ∈ groups, (joined group).splitOn 10 = group := by
      intro group hm
      refine List.splitOn_intercalate 10 (fun line hline => hl line ?_) (hg group hm).ne_nil
      rw [heq]
      exact List.mem_append_left _ (List.mem_flatten.mpr ⟨group, hm, hline⟩)
    calc groups = groups.map id := (List.map_id groups).symm
      _ = groups.map fun group => (joined group).splitOn 10 :=
        List.map_congr_left fun group hm => (hsplit group hm).symm
      _ = _ := by rw [hc, List.map_map]; rfl
  · intro cfg c hd hreader hq
    rw [run_eq_handled cfg c hq, hd, hreader, hc]

/--
Of a blank line, the lines `if a` with an opening brace, a closing brace, and `-`, the first is a chunk,
the next two make one, and the last is left over.
-/
theorem chunks_eq_groups_block :
    ∃ groups rest, [[], [105, 102, 32, 97, 32, 123], [125], [45]] = groups.flatten ++ rest ∧
      groups = [[[]], [[105, 102, 32, 97, 32, 123], [125]]] ∧ rest = [[45]] ∧
      ∀ first, first <+: rest → first ≠ [] →
        ∃ e, Parser.parse 0 (codeOf (joined first)) = .error e ∧ e.incomplete := by
  obtain ⟨groups, rest, heq, -, -, hr, hsplit, -⟩ :=
    chunks_eq_groups 0 [[], [105, 102, 32, 97, 32, 123], [125], [45]]
  have hchunks : (({} : Reader).chunks 0 [[], [105, 102, 32, 97, 32, 123], [125], [45]]).1 =
      [[], [105, 102, 32, 97, 32, 123, 10, 125]] := by decide +kernel
  have hgroups : groups = [[[]], [[105, 102, 32, 97, 32, 123], [125]]] := by
    rw [hsplit (by decide), hchunks]
    decide +kernel
  have hrest : rest = [[45]] := by simpa [hgroups] using heq.symm
  exact ⟨groups, rest, heq, hgroups, hrest, hr⟩

end Scriptlet.Repl
