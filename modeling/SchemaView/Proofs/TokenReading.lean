import SchemaView.Proofs.TreeTokens

/-!
# Reading tokens

`Reader.Reads` says what a reader does with tokens: from given ones it answers a tree and leaves
others. Elements between marks are read one after the other where each of them ends before the next
one and before the closing mark (`Repeats`).

## Key results

- `Reads.bind`, `meets_peek_bind`, `meets_bound_bind`: how readers are put together
- `reads_between`, `reads_someBetween`, `reads_optionalBetween`, `reads_separated`: repetition
-/

namespace SchemaView.Sdl

/-- The tokens that are left to read, and that the text ends behind them. -/
structure Lexemes.Holds (s : Lexemes) (tokens : List Token) : Prop where
  items : s.items.map Lexeme.token = tokens
  ends : ∃ p, s.ending = .endOfText p

theorem Lexemes.holds_ofText {text : String} {tokens : List Token}
    (h : Scans text.toList tokens) : (Lexemes.ofText text).Holds tokens := by
  obtain ⟨items, p, hscan, hitems⟩ := h (text.toList.length + 1) .start (by omega)
  have htext : Lexemes.ofText text = Lexemes.ofItems items (.endOfText p) := by
    simp only [Lexemes.ofText, Cursor.start, hscan]
  rw [htext]
  exact ⟨hitems, p, rfl⟩

theorem Lexemes.Holds.length_eq {s : Lexemes} {tokens : List Token} (h : s.Holds tokens) :
    s.length = tokens.length := by
  rw [s.length_eq, ← h.items, List.length_map]

/-- What a reader does where given tokens are left. -/
def Reader.Meets {α : Type} (r : Reader α) (before : List Token)
    (post : Except Fault (α × Lexemes) → Prop) : Prop :=
  ∀ s : Lexemes, s.Holds before → post (r s)

/-- A reader answers a tree and leaves tokens behind it. -/
abbrev Reader.Reads {α : Type} (r : Reader α) (before : List Token) (a : α) (after : List Token) :
    Prop :=
  r.Meets before fun answer => ∃ s', answer = .ok (a, s') ∧ s'.Holds after

/-- The next token. -/
def next (tokens : List Token) : Token := tokens.headD .endOfText

@[simp] theorem next_cons (t : Token) (tokens : List Token) : next (t :: tokens) = t := rfl

/-- The next token is another one. -/
def Avoids (t : Token) (tokens : List Token) : Prop := next tokens ≠ t

@[simp] theorem avoids_cons {t head : Token} {tokens : List Token} :
    Avoids t (head :: tokens) ↔ head ≠ t := Iff.rfl

theorem exists_of_not_avoids {t : Token} {tokens : List Token} (ht : t ≠ .endOfText)
    (h : ¬ Avoids t tokens) : ∃ more, tokens = t :: more := by
  have hnext : next tokens = t := Decidable.not_not.1 h
  cases tokens with
  | nil => exact absurd hnext.symm ht
  | cons head more => exact ⟨more, by rw [← hnext, next_cons]⟩

namespace Reader

variable {α β : Type} {a : α} {b : β} {r : Reader α} {before middle after : List Token}
    {post : Except Fault (β × Lexemes) → Prop}

/-! ## How readers are put together -/

theorem reads_pure (a : α) (tokens : List Token) : (pure a : Reader α).Reads tokens a tokens :=
  fun s h => ⟨s, rfl, h⟩

theorem Reads.bind {f : α → Reader β} (hr : r.Reads before a middle)
    (hf : (f a).Meets middle post) : (r >>= f).Meets before post := by
  intro s hs
  obtain ⟨s', hread, hs'⟩ := hr s hs
  have hbind : (r >>= f) s = f a s' := by
    simp only [Bind.bind, StateT.bind, Except.bind, hread]
  rw [hbind]
  exact hf s' hs'

theorem Reads.map (hr : r.Reads before a after) (f : α → β) :
    (f <$> r).Reads before (f a) after :=
  hr.bind (f := fun a => pure (f a)) (reads_pure (f a) after)

theorem meets_if_pos {c : Prop} [Decidable c] {r t : Reader β} (hc : c) (h : r.Meets before post) :
    (if c then r else t).Meets before post := by
  rwa [if_pos hc]

theorem meets_if_neg {c : Prop} [Decidable c] {r t : Reader β} (hc : ¬ c)
    (h : r.Meets before post) :
    (if c then t else r).Meets before post := by
  rwa [if_neg hc]

/-- Looking at the next token. -/
theorem meets_peek_bind {f : Lexeme → Reader β}
    (h : ∀ p, (f ⟨next before, p⟩).Meets before post) : (peek >>= f).Meets before post := by
  intro s hs
  obtain ⟨p, hend⟩ := hs.ends
  have hpeek : ∃ q, peek s = .ok (⟨next before, q⟩, s) := by
    rw [peek, ← hs.items, hend]
    cases s.items with
    | nil => exact ⟨p, rfl⟩
    | cons lexeme items => exact ⟨lexeme.position, rfl⟩
  obtain ⟨q, hpeek⟩ := hpeek
  have hbind : (peek >>= f) s = f ⟨next before, q⟩ s := by
    simp only [Bind.bind, StateT.bind, Except.bind, hpeek]
  rw [hbind]
  exact h q s hs

/-- Looking at the token behind the next one. -/
theorem meets_peekSecond_bind {f : Lexeme → Reader β}
    (h : ∀ p, (f ⟨next before.tail, p⟩).Meets before post) :
    (peekSecond >>= f).Meets before post := by
  intro s hs
  obtain ⟨p, hend⟩ := hs.ends
  have hpeek : ∃ q, peekSecond s = .ok (⟨next before.tail, q⟩, s) := by
    rw [peekSecond, ← hs.items, hend]
    cases s.items with
    | nil => exact ⟨p, rfl⟩
    | cons lexeme items =>
      cases items with
      | nil => exact ⟨p, rfl⟩
      | cons lexeme items => exact ⟨lexeme.position, rfl⟩
  obtain ⟨q, hpeek⟩ := hpeek
  have hbind : (peekSecond >>= f) s = f ⟨next before.tail, q⟩ s := by
    simp only [Bind.bind, StateT.bind, Except.bind, hpeek]
  rw [hbind]
  exact h q s hs

/-- The bound for repetitions is more than the number of tokens left. -/
theorem meets_bound_bind {f : Nat → Reader β}
    (h : ∀ n, before.length < n → (f n).Meets before post) : (bound >>= f).Meets before post := by
  intro s hs
  exact h (s.length + 1) (by rw [hs.length_eq]; omega) s hs

theorem reads_advance (t : Token) (rest : List Token) :
    (discard advance : Reader Unit).Reads (t :: rest) () rest := by
  intro s hs
  obtain ⟨p, hend⟩ := hs.ends
  have hitems := hs.items
  cases hlist : s.items with
  | nil => simp [hlist] at hitems
  | cons lexeme items =>
    rw [hlist, List.map_cons, List.cons.injEq] at hitems
    have hadvance : advance s = .ok (lexeme, s.behindFirst) := by
      simp only [advance, hlist, hend]
    have hdiscard : (discard advance : Reader Unit) s =
        (advance s >>= fun q => .ok ((), q.2)) := rfl
    refine ⟨s.behindFirst, by rw [hdiscard, hadvance]; rfl, ?_, p, hend⟩
    simp only [Lexemes.behindFirst, hlist, List.tail_cons]
    exact hitems.2

variable {m : Punctuator} {rest : List Token}

/-- Whether the next token is a mark. -/
theorem reads_atMark (m : Punctuator) (rest : List Token) :
    (atMark m).Reads (.punctuator m :: rest) true (.punctuator m :: rest) := by
  refine meets_peek_bind fun p => ?_
  have hsame : (next (.punctuator m :: rest) == .punctuator m) = true := beq_self_eq_true _
  rw [hsame]
  exact reads_pure true _

theorem reads_not_atMark (h : Avoids (.punctuator m) rest) : (atMark m).Reads rest false rest := by
  refine meets_peek_bind fun p => ?_
  have hother : (next rest == .punctuator m) = false := beq_eq_false_iff_ne.2 h
  rw [hother]
  exact reads_pure false _

theorem reads_mark (m : Punctuator) (rest : List Token) :
    (mark m).Reads (.punctuator m :: rest) () rest :=
  meets_peek_bind fun _ => meets_if_pos rfl (reads_advance _ rest)

theorem reads_optionalMark (m : Punctuator) (rest : List Token) :
    (optionalMark m).Reads (.punctuator m :: rest) true rest :=
  (reads_atMark m rest).bind ((reads_advance _ rest).bind (reads_pure true rest))

theorem reads_no_optionalMark (h : Avoids (.punctuator m) rest) :
    (optionalMark m).Reads rest false rest :=
  (reads_not_atMark h).bind (reads_pure false rest)

theorem reads_keyword (word : String) (rest : List Token) :
    (keyword word).Reads (.name word :: rest) () rest :=
  meets_peek_bind fun _ => meets_if_pos rfl (reads_advance _ rest)

theorem reads_optionalKeyword (word : String) (rest : List Token) :
    (optionalKeyword word).Reads (.name word :: rest) true rest :=
  meets_peek_bind fun _ => meets_if_pos rfl ((reads_advance _ rest).bind (reads_pure true rest))

theorem reads_no_optionalKeyword {word : String} (h : Avoids (.name word) rest) :
    (optionalKeyword word).Reads rest false rest :=
  meets_peek_bind fun _ => meets_if_neg h (reads_pure false rest)

theorem reads_name (text : Name) (rest : List Token) : name.Reads (.name text :: rest) text rest :=
  meets_peek_bind fun _ => (reads_advance _ rest).bind (reads_pure text rest)

/-! ## Repetition -/

/-- Elements in front of a closing mark: each one is read where what follows lets it end, which the
    next element and the closing mark do, and none starts with the closing mark. -/
structure Repeats (element : Reader α) (write : α → List Token) (close : Punctuator)
    (Follows : List Token → Prop) (xs : List α) : Prop where
  reads : ∀ x ∈ xs, ∀ more, Follows more → element.Reads (write x ++ more) x more
  follows : ∀ x ∈ xs, ∀ more, Follows (write x ++ more)
  last : ∀ more, Follows (.punctuator close :: more)
  avoids : ∀ x ∈ xs, ∀ more, Avoids (.punctuator close) (write x ++ more)

section Repetition

variable {element : Reader α} {write : α → List Token} {close : Punctuator}
    {Follows : List Token → Prop} {x : α} {xs : List α}

theorem Repeats.tail (h : Repeats element write close Follows (x :: xs)) :
    Repeats element write close Follows xs where
  reads y hy := h.reads y (List.mem_cons_of_mem _ hy)
  follows y hy := h.follows y (List.mem_cons_of_mem _ hy)
  last := h.last
  avoids y hy := h.avoids y (List.mem_cons_of_mem _ hy)

theorem Repeats.follows_rest (h : Repeats element write close Follows xs) (rest : List Token) :
    Follows (xs.flatMap write ++ .punctuator close :: rest) := by
  cases xs with
  | nil => exact h.last rest
  | cons x xs =>
    rw [List.flatMap_cons, List.append_assoc]
    exact h.follows x List.mem_cons_self _

/-- Elements take at least one token each. -/
theorem length_le_length_flatMap (h : ∀ x ∈ xs, write x ≠ []) :
    xs.length ≤ (xs.flatMap write).length := by
  induction xs with
  | nil => exact Nat.le_refl 0
  | cons x xs ih =>
    have hlength := List.length_pos_iff.2 (h x List.mem_cons_self)
    have hxs := ih fun y hy => h y (List.mem_cons_of_mem _ hy)
    rw [List.length_cons, List.flatMap_cons, List.length_append]
    omega

theorem Repeats.length_le (h : Repeats element write close Follows xs) :
    xs.length ≤ (xs.flatMap write).length := by
  -- An element without a token would have the closing mark next.
  refine length_le_length_flatMap fun x hx hnone => ?_
  have hfirst := h.avoids x hx [.punctuator close]
  rw [hnone] at hfirst
  exact hfirst rfl

theorem reads_repeatUntil (h : Repeats element write close Follows xs) (rest : List Token) {n : Nat}
    (hn : xs.length < n) :
    (repeatUntil close element n).Reads
      (xs.flatMap write ++ .punctuator close :: rest) xs rest := by
  -- The induction is on the elements: the bound only has to be more than their number.
  induction xs generalizing n with
  | nil =>
    cases n with
    | zero => exact absurd hn (Nat.not_lt_zero _)
    | succ n => exact (reads_optionalMark close rest).bind (reads_pure [] rest)
  | cons x xs ih =>
    cases n with
    | zero => exact absurd hn (Nat.not_lt_zero _)
    | succ n =>
      have hxs := ih h.tail (Nat.lt_of_succ_lt_succ hn)
      have hx := h.reads x List.mem_cons_self _ (h.tail.follows_rest rest)
      rw [List.flatMap_cons, List.append_assoc]
      exact (reads_no_optionalMark (h.avoids x List.mem_cons_self _)).bind
        (hx.bind (hxs.bind (reads_pure (x :: xs) rest)))

/-- Elements between two marks, possibly none. -/
theorem reads_between (h : Repeats element write close Follows xs) (opening : Punctuator)
    (rest : List Token) :
    (between opening close element).Reads
      (.punctuator opening :: (xs.flatMap write ++ .punctuator close :: rest)) xs rest := by
  refine (reads_mark opening _).bind (meets_bound_bind fun n hn => ?_)
  have hlength := h.length_le
  rw [List.length_append] at hn
  exact reads_repeatUntil h rest (by omega)

theorem Repeats.enclosed_eq (h : Repeats element write close Follows xs) (hsome : xs ≠ [])
    (opening : Punctuator) : enclosed opening close (xs.flatMap write)
      = .punctuator opening :: (xs.flatMap write ++ [.punctuator close]) := by
  refine enclosed_of_ne_nil _ _ ?_
  have hxs := List.length_pos_iff.2 hsome
  have hlength := h.length_le
  rw [Ne, ← List.length_eq_zero_iff]
  omega

/-- Elements between two marks, at least one. -/
theorem reads_someBetween (h : Repeats element write close Follows xs) (hsome : xs ≠ [])
    (opening : Punctuator) (rest : List Token) :
    (someBetween opening close element).Reads (enclosed opening close (xs.flatMap write) ++ rest) xs
      rest := by
  rw [h.enclosed_eq hsome opening]
  obtain ⟨x, xs, rfl⟩ := List.exists_cons_of_ne_nil hsome
  have hx := h.reads x List.mem_cons_self _ (h.tail.follows_rest rest)
  have hlength := h.tail.length_le
  rw [List.flatMap_cons, List.cons_append, List.append_assoc, List.append_assoc]
  refine (reads_mark opening _).bind (hx.bind (meets_bound_bind fun n hn => ?_))
  rw [List.length_append] at hn
  exact (reads_repeatUntil h.tail rest (by omega)).bind (reads_pure (x :: xs) rest)

/-- Elements between two marks, or nothing. -/
theorem reads_optionalBetween (h : Repeats element write close Follows xs) (opening : Punctuator)
    (hrest : xs = [] → Avoids (.punctuator opening) rest) :
    (optionalBetween opening close element).Reads
      (enclosed opening close (xs.flatMap write) ++ rest) xs rest := by
  by_cases hnone : xs = []
  · subst hnone
    exact (reads_not_atMark (hrest rfl)).bind (reads_pure [] rest)
  · have hread := reads_someBetween h hnone opening rest
    rw [h.enclosed_eq hnone opening] at hread ⊢
    exact (reads_atMark opening _).bind hread

end Repetition

theorem reads_moreSeparated {separator : Punctuator} {element : Reader Name} {names : List Name}
    (helement : ∀ n ∈ names, ∀ more, element.Reads (.name n :: more) n more)
    (hrest : Avoids (.punctuator separator) rest) {n : Nat} (hn : names.length < n) :
    (moreSeparated separator element n).Reads
      (names.flatMap (nameBehind separator) ++ rest) names rest := by
  induction names generalizing n with
  | nil =>
    cases n with
    | zero => exact absurd hn (Nat.not_lt_zero _)
    | succ n => exact (reads_no_optionalMark hrest).bind (reads_pure [] rest)
  | cons name names ih =>
    cases n with
    | zero => exact absurd hn (Nat.not_lt_zero _)
    | succ n =>
      have hnames := ih (fun x hx => helement x (List.mem_cons_of_mem _ hx))
        (Nat.lt_of_succ_lt_succ hn)
      exact (reads_optionalMark separator _).bind ((helement name List.mem_cons_self _).bind
        (hnames.bind (reads_pure (name :: names) rest)))

/-- Names with marks between them, at least one. -/
theorem reads_separated {separator : Punctuator} {element : Reader Name} {names : List Name}
    (hsome : names ≠ []) (helement : ∀ n ∈ names, ∀ more, element.Reads (.name n :: more) n more)
    (hrest : Avoids (.punctuator separator) rest) :
    (separated separator element).Reads (nameTokens separator names ++ rest) names rest := by
  obtain ⟨name, names, rfl⟩ := List.exists_cons_of_ne_nil hsome
  -- A mark may stand in front of the first name too, but printing puts none there.
  have hnone : (discard (optionalMark separator) : Reader Unit).Reads
      (nameTokens separator (name :: names) ++ rest) ()
      (.name name :: (names.flatMap (nameBehind separator) ++ rest)) :=
    (reads_no_optionalMark (by simp [nameTokens])).bind (f := fun _ => pure ()) (reads_pure () _)
  have hlength : names.length ≤ (names.flatMap (nameBehind separator)).length :=
    length_le_length_flatMap fun _ _ => List.cons_ne_nil _ _
  refine hnone.bind ((helement name List.mem_cons_self _).bind (meets_bound_bind fun n hn => ?_))
  rw [List.length_append] at hn
  exact (reads_moreSeparated (fun x hx => helement x (List.mem_cons_of_mem _ hx)) hrest
    (by omega)).bind (reads_pure (name :: names) rest)

end Reader

end SchemaView.Sdl
