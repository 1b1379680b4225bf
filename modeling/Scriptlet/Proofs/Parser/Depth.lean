import Scriptlet.Proofs.Completion

/-!
# The bound on nesting

The bound is looked at in one place, where an expression begins. So a parser with a bound goes through
the same states as one without, until it refuses to begin an expression that would be too deep; and it
refuses one if and only if the parser without a bound gets that deep.

## Main definitions

* `Parser.State.depth`: the number of expressions that are being read
* `Parser.Visits`: the states that a parser goes through
* `Parser.depths`: how deep a parser without a bound gets on the way through a text

## Main statements

* `Parser.run_eq_of_visits`: a bound that is never exceeded makes no difference
* `Parser.Visits.run_eq_error`: a bound that is exceeded is what the parser reports
* `Parser.exists_isLUB_depths`: the depth of a text decides which bounds cut it off
-/

namespace Scriptlet.Parser

/--
The number of expressions that are being read. Every frame waits inside of one, and there is one more
where the parser is, unless that is between two statements.
-/
def State.depth (s : State) : Nat :=
  match s.control with
  | .top => s.frames.length
  | _ => s.frames.length + 1

/-- The number of expressions whose first token has been read. -/
def State.begun (s : State) : Nat :=
  match s.control with
  | .top | .start _ => s.frames.length
  | _ => s.frames.length + 1

/-- The states in which a token, or the end of the text, is looked at on the way through the tokens. -/
inductive Visits (bound : Nat) : State → Tokens → State → Prop where
  | here {s u toks t} (ht : toks.first? = some t) (h : Moves t s u) : Visits bound s toks u
  | later {s s' u t rest} (h : feed bound s t = .ok s') (hv : Visits bound s' rest u) :
      Visits bound s (.cons t rest) u

variable {bound : Nat} {t : Token} {s s' u : State} {toks : Tokens}

/-! ## One token -/

theorem State.depth_le_begun (s : State) : s.depth ≤ s.begun + 1 := by
  obtain ⟨control, frames, done⟩ := s
  cases control <;> simp [depth, begun]

/-- Only an expression that is about to begin is not begun. -/
theorem State.exists_start_of_begun_lt (h : s.begun < s.depth) : ∃ floor, s.control = .start floor := by
  obtain ⟨control, frames, done⟩ := s
  cases control <;> simp_all [depth, begun]

theorem Move.begun_le (h : Move t s u) : u.begun ≤ s.begun := by
  cases h <;> simp [State.begun]

theorem Moves.begun_le (h : Moves t s u) : u.begun ≤ s.begun :=
  h.induction (P := fun u => u.begun ≤ s.begun) (fun hm hs => hm.begun_le.trans hs) le_rfl

/-- A token begins no expression but the one that it is looked at in. -/
theorem Shift.begun_le (h : Shift t s u) : u.begun ≤ s.depth := by
  cases h <;> simp [State.begun, State.depth]

/-- The bound is looked at only where an expression begins. -/
theorem Settled.feed_eq_of_start (h : Settled t s)
    (hb : ∀ floor, s.control = .start floor → ¬ (0 < bound ∧ bound < s.frames.length + 1)) :
    feed bound s t = feed 0 s t := by
  cases h with
  | start =>
    simp only [feed, startWith, hb _ rfl]
    simp
  | negated hk => rcases hk with hk | hk <;> simp [feed, hk]
  | named hk | atom hk => simp [feed, hk]
  | operator hp => simp [feed, deliver_of_lt hp]
  | group hp =>
    simp only [feed]
    rw [deliver, deliver]
  | opening => rfl
  | block hk => rcases hk with hk | hk <;> simp [feed, inBlock, hk]
  | branches hk => simp [feed, hk]
  | top hk => simp [feed, atTop, hk]

theorem Settled.feed_eq (h : Settled t s) (hd : s.depth ≤ bound) : feed bound s t = feed 0 s t := by
  refine h.feed_eq_of_start fun floor hc hb => absurd hd (Nat.not_le.mpr ?_)
  simpa [State.depth, hc] using hb.2

theorem feed_eq_of_depth_le (hm : Moves t s u) (hu : Settled t u) (hd : u.depth ≤ bound) :
    feed bound s t = feed 0 s t := by
  rw [Moves.feed_eq hm, Moves.feed_eq hm, hu.feed_eq hd]

/-- An expression that is too deep does not begin. -/
theorem feed_eq_error (hb : 0 < bound) (hs : s.begun ≤ bound) (hm : Moves t s u)
    (hd : bound < u.depth) : feed bound s t = .error (.atToken t (.tooDeep bound)) := by
  have hbegun : u.begun < u.depth := (hm.begun_le.trans hs).trans_lt hd
  obtain ⟨floor, hc⟩ := State.exists_start_of_begun_lt hbegun
  have hframes : bound < u.frames.length + 1 := by simpa [State.depth, hc] using hd
  rw [Moves.feed_eq hm]
  simp [feed, hc, startWith, hb, hframes]

/-- A token that is accepted adds at most one to the expressions that have begun. -/
theorem exists_settled_of_feed (h : feed 0 s t = .ok s') :
    ∃ u, Moves t s u ∧ Settled t u ∧ s'.begun ≤ u.depth := by
  obtain ⟨u, hm, hu⟩ := settles t s
  rw [Moves.feed_eq hm] at h
  rcases hu.outcome 0 with ⟨v, hv, hs⟩ | ⟨problem, hp⟩
  · obtain rfl : s' = v := by simpa [h] using hv
    exact ⟨u, hm, hu, hs.begun_le⟩
  · simp [h] at hp

/-! ## All tokens -/

theorem feed_eq_of_visits (h : ∀ u, Visits 0 s toks u → u.depth ≤ bound)
    (ht : toks.first? = some t) : feed bound s t = feed 0 s t := by
  obtain ⟨u, hm, hu⟩ := settles t s
  exact feed_eq_of_depth_le hm hu (h u (.here ht hm))

/-- A bound that is never exceeded makes no difference. -/
theorem run_eq_of_visits (h : ∀ u, Visits 0 s toks u → u.depth ≤ bound) :
    run bound s toks = run 0 s toks := by
  induction toks generalizing s with
  | failed e => rfl
  | done line => simp only [run, feed_eq_of_visits h rfl]
  | cons t rest ih =>
    simp only [run, feed_eq_of_visits h rfl]
    cases hs : feed 0 s t with
    | error e => rfl
    | ok s' => exact ih fun u hv => h u (.later hs hv)

theorem run_eq_error_of_feed {e : ParseError} (ht : toks.first? = some t)
    (h : feed bound s t = .error e) : run bound s toks = .error e := by
  cases toks with
  | failed => cases ht
  | done line | cons =>
    cases ht
    simp [run, h]

/-- A bound that is exceeded somewhere is what the parser reports. -/
theorem Visits.run_eq_error (h : Visits 0 s toks u) (hb : 0 < bound) (hs : s.begun ≤ bound)
    (hd : bound < u.depth) : ∃ t, run bound s toks = .error (.atToken t (.tooDeep bound)) := by
  induction h with
  | here ht hm => exact ⟨_, run_eq_error_of_feed ht (feed_eq_error hb hs hm hd)⟩
  | @later s s' u t rest h hv ih =>
    obtain ⟨v, hm, hv, hbegun⟩ := exists_settled_of_feed h
    -- Either this token is too deep already, or the bound lets it pass as if there were none.
    by_cases hlt : bound < v.depth
    · exact ⟨t, run_eq_error_of_feed rfl (feed_eq_error hb hs hm hlt)⟩
    · have hle : v.depth ≤ bound := Nat.not_lt.mp hlt
      simpa [run, feed_eq_of_depth_le hm hv hle, h] using ih (hbegun.trans hle) hd

/-- Each token makes the text one deeper at most. -/
theorem Visits.depth_le (h : Visits 0 s toks u) : u.depth ≤ s.begun + toks.toList.length + 1 := by
  induction h with
  | @here s u toks t ht hm =>
    have hdepth := u.depth_le_begun
    have hbegun := hm.begun_le
    omega
  | @later s s' u t rest h hv ih =>
    obtain ⟨v, hm, -, hv⟩ := exists_settled_of_feed h
    have hdepth := v.depth_le_begun
    have hbegun := hm.begun_le
    simp only [Tokens.toList, List.length_cons]
    omega

/-- What moves and shifts preserve holds in every state that the parser goes through. -/
theorem Visits.induction {P : State → Prop} (h : Visits bound s toks u)
    (move : ∀ {t s u}, Move t s u → P s → P u) (shift : ∀ {t s u}, Shift t s u → P s → P u)
    (hs : P s) : P u := by
  induction h with
  | here _ hm => exact hm.induction move hs
  | later h _ ih =>
    obtain ⟨v, hm, hv⟩ := exists_shift_of_feed h
    exact ih (shift hv (hm.induction move hs))

/-- Nothing is open between two statements of a text. -/
theorem Visits.frames_of_top (h : Visits bound .initial toks u) : u.control = .top → u.frames = [] := by
  refine h.induction (P := fun u => u.control = .top → u.frames = []) ?_ ?_ fun _ => rfl
  · intro t s u hm hs
    cases hm with
    | last => exact fun _ => rfl
    | _ => exact nofun
  · intro t s u hshift hs
    cases hshift with
    | finish => exact hs
    | _ => exact nofun

/-- The numbers of expressions that are read at once, without a bound, on the way through a text. -/
def depths (text : String) : Set Nat :=
  {n | ∃ u, Visits 0 .initial (Tokens.ofText text).significant u ∧ u.depth = n}

section Text

variable {text : String} {depth : Nat}

theorem bddAbove_depths (text : String) : BddAbove (depths text) := by
  refine ⟨(Tokens.ofText text).significant.toList.length + 1, ?_⟩
  rintro n ⟨u, hu, rfl⟩
  simpa [State.begun, State.initial] using hu.depth_le

theorem parse_eq_of_isLUB (h : IsLUB (depths text) depth) (hle : depth ≤ bound) :
    parse bound text = parse 0 text :=
  run_eq_of_visits fun u hu => (h.1 ⟨u, hu, rfl⟩).trans hle

theorem parse_eq_error_of_isLUB (h : IsLUB (depths text) depth) (hb : 0 < bound)
    (hlt : bound < depth) : ∃ t, parse bound text = .error (.atToken t (.tooDeep bound)) := by
  obtain ⟨n, ⟨u, hu, rfl⟩, hn⟩ := (lt_isLUB_iff h).mp hlt
  exact hu.run_eq_error hb (Nat.zero_le bound) hn

/-- Whatever is accepted under a bound is not cut off by it. -/
theorem le_of_parse_eq_ok (h : IsLUB (depths text) depth) (hb : 0 < bound) {nodes : List Node}
    (hp : parse bound text = .ok nodes) : depth ≤ bound := by
  by_contra hlt
  obtain ⟨t, ht⟩ := parse_eq_error_of_isLUB h hb (Nat.not_le.mp hlt)
  simp [hp] at ht

end Text

/--
A text has a depth, which is the largest number of expressions that are being read at once. A bound
from that depth on makes no difference, and a smaller one is what the parser reports. So a text that
is accepted stays accepted when the bound is raised or lifted. Between two statements no expression
is being read, whatever the bound.
-/
theorem exists_isLUB_depths (text : String) :
    (∃ depth, IsLUB (depths text) depth ∧ ∀ bound > 0,
      (depth ≤ bound → parse bound text = parse 0 text) ∧
      (bound < depth → ∃ e, parse bound text = .error e ∧ e.kind = .unableToParse ∧
        e.problem = .tooDeep bound ∧
        e.detail = "nesting deeper than " ++ toString bound ++ " levels")) ∧
      (∀ bound bound' nodes, 0 < bound → bound ≤ bound' ∨ bound' = 0 →
        parse bound text = .ok nodes → parse bound' text = .ok nodes) ∧
      ∀ bound u, Visits bound .initial (Tokens.ofText text).significant u →
        u.control = .top → u.depth = 0 := by
  have hlub : IsLUB (depths text) (sSup (depths text)) := isLUB_csSup' (bddAbove_depths text)
  refine ⟨⟨_, hlub, fun bound hb => ⟨parse_eq_of_isLUB hlub, fun hlt => ?_⟩⟩, ?_, ?_⟩
  · obtain ⟨t, ht⟩ := parse_eq_error_of_isLUB hlub hb hlt
    exact ⟨_, ht, rfl, rfl, rfl⟩
  · intro bound bound' nodes hb hle hp
    have hdepth := le_of_parse_eq_ok hlub hb hp
    have hzero : parse 0 text = .ok nodes := by rw [← parse_eq_of_isLUB hlub hdepth, hp]
    rcases hle with hle | rfl
    · rw [parse_eq_of_isLUB hlub (hdepth.trans hle), hzero]
    · exact hzero
  · intro bound u hu hc
    simp [State.depth, hc, hu.frames_of_top hc]

theorem exists_isLUB_depths_parens :
    ∃ depth, IsLUB (depths "((a ))") depth ∧ depth = 3 ∧
      (∃ e, parse 2 "((a ))" = .error e ∧ e.detail = "nesting deeper than 2 levels") ∧
      parse 3 "((a ))" = parse 0 "((a ))" ∧ parse 4 "((a ))" = .ok [.identifier "a"] := by
  obtain ⟨⟨depth, hlub, hbound⟩, hraise, -⟩ := exists_isLUB_depths "((a ))"
  have haccepted : parse 3 "((a ))" = .ok [.identifier "a"] := by cbv
  have hrefused : ¬ parse 2 "((a ))" = .ok [.identifier "a"] := by
    have h : (parse 2 "((a ))").toOption.isSome = false := by cbv
    intro ha
    simp [ha, Except.toOption] at h
  have hle : depth ≤ 3 := le_of_parse_eq_ok hlub (by decide) haccepted
  have hlift : parse 0 "((a ))" = .ok [.identifier "a"] :=
    hraise 3 0 _ (by decide) (.inr rfl) haccepted
  have hlt : 2 < depth := by
    by_contra hge
    exact hrefused (((hbound 2 (by decide)).1 (Nat.not_lt.mp hge)).trans hlift)
  obtain ⟨e, he, -, -, hdetail⟩ := (hbound 2 (by decide)).2 hlt
  exact ⟨depth, hlub, by omega, ⟨e, he, hdetail⟩, (hbound 3 (by decide)).1 hle,
    hraise 3 4 _ (by decide) (.inl (by decide)) haccepted⟩

end Scriptlet.Parser
