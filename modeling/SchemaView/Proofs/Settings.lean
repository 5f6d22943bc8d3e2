import SchemaView.CommandLine.Run
import SchemaView.Proofs.OrderedMap

/-!
# Settings

What the variables of a settings file are worth in an environment. A variable has the value that the
environment gives it, or else the one that the file does, in which references to other variables are
filled in. So only the variables matter that the configuration is made of, that the file sets or
that it refers to, and environments that agree on these are as good as each other.

## Key results

- `get?_withFile`: the value of a variable in an environment with a settings file
- `withFile_of_agreesOn`: environments that agree get settings that agree, or fail in the same way
- `executeIn_of_agreesOn`: what a command does under environments that agree
-/

namespace SchemaView

/-! ## Variables of a settings file -/

namespace Variables

variable {environment v w settings : Variables} {file : Option String} {name : String}

/-- The value of a variable: the one that the environment sets, or else the one in a settings
    file. -/
def lookup (environment : Variables) (file : Option String) (name : String) : Option String :=
  (environment.get? name).or
    (file.bind fun text => ((environment.resolve (Setting.ofFile text)).get? name).join)

/-- Sets a variable of a settings file, unless it is set or the file gives it no value. -/
def offer (v : Variables) (setting : String × Option String) : Except Error Variables :=
  match setting.2 with
  | some value => if v.contains setting.1 then .ok v else v.set setting.1 value
  | none => .ok v

theorem eq_insert_of_set {value : String} (h : v.set name value = .ok w) :
    w = v.insert name value := by
  unfold set at h
  split at h
  · cases h
  · split at h
    · cases h
    · exact (Except.ok.inj h).symm

/-- What is set stays, and nothing else is set than what is offered. -/
theorem get?_offer {setting : String × Option String} (h : v.offer setting = .ok w) :
    w.get? name = (v.get? name).or (if name = setting.1 then setting.2 else none) := by
  obtain ⟨key, value?⟩ := setting
  cases value? with
  | none =>
    obtain rfl : v = w := Except.ok.inj h
    simp
  | some value =>
    by_cases hset : v.contains key
    · obtain rfl : v = w := Except.ok.inj ((if_pos hset).symm.trans h)
      obtain ⟨old, hold⟩ := (v.mem_keys_iff key).1 ((v.contains_iff key).1 hset)
      by_cases hname : name = key
      · simp [hname, hold]
      · simp [hname]
    · rw [eq_insert_of_set ((if_neg hset).symm.trans h), OrderedMap.get?_insert]
      have hnone : v.get? key = none :=
        (v.get?_eq_none_iff key).2 fun hmem => hset ((v.contains_iff key).2 hmem)
      by_cases hname : name = key
      · simp [hname, hnone]
      · simp [hname]

/-- The settings of a file have different names, so each is offered once. -/
theorem get?_offers {entries : List (String × Option String)}
    (hnd : (entries.map Prod.fst).Nodup) (h : entries.foldlM offer v = .ok w) :
    w.get? name = (v.get? name).or ((OrderedMap.mk entries hnd).get? name).join := by
  induction entries generalizing v with
  | nil =>
    obtain rfl : v = w := Except.ok.inj h
    exact Option.or_none.symm
  | cons e es ih =>
    obtain ⟨hfresh, hrest⟩ := List.nodup_cons.1 hnd
    rw [List.foldlM_cons] at h
    cases hfirst : v.offer e with
    | error fault => rw [hfirst] at h; cases h
    | ok u =>
      rw [hfirst] at h
      rw [ih hrest h, get?_offer hfirst, Option.or_assoc]
      congr 1
      -- What is left to offer has other names, and the first entry is the one that is found.
      show _ = (if name = e.1 then some e.2 else (OrderedMap.mk es hrest).get? name).join
      by_cases hname : name = e.1
      · have hnone : (OrderedMap.mk es hrest).get? name = none :=
          (OrderedMap.get?_eq_none_iff _ _).2 (hname ▸ hfresh)
        rw [if_pos hname, if_pos hname, hnone]
        exact Option.or_none
      · rw [if_neg hname, if_neg hname]
        rfl

/-- The settings of a file are added to those of the environment. -/
theorem get?_withFile (h : environment.withFile file = .ok settings) (name : String) :
    settings.get? name = environment.lookup file name := by
  cases file with
  | none =>
    obtain rfl : environment = settings := Except.ok.inj h
    exact Option.or_none.symm
  | some text => exact get?_offers (environment.resolve (Setting.ofFile text)).nodup_keys h

/-! ## Environments that agree -/

/-- Some variables have the same values. -/
def AgreesOn (v w : Variables) (names : List String) : Prop :=
  ∀ name ∈ names, v.get? name = w.get? name

/-- Two computations of settings have results that agree on some variables, or the same failure. -/
inductive EndsAlike (names : List String) : Except Error Variables → Except Error Variables → Prop
  | ok {v w : Variables} (h : v.AgreesOn w names) : EndsAlike names (.ok v) (.ok w)
  | error (e : Error) : EndsAlike names (.error e) (.error e)

variable {names : List String}

/-- What settings leave in the names, with what one more leaves in its name. -/
def settle (environment : Variables) (resolved : OrderedMap String (Option String)) (s : Setting) :
    OrderedMap String (Option String) :=
  resolved.insert s.name (s.value?.map fun value => String.ofList (Setting.expand (fun name =>
    match environment.get? name with
    | some value => some value
    | none => (resolved.get? name).map (·.getD "")) value.toList))

theorem resolve_eq_foldl (ss : List Setting) : v.resolve ss = ss.foldl v.settle .empty := rfl

/-- What a setting leaves depends on the variables that occur in it. -/
theorem settle_of_agreesOn {s : Setting} (h : v.AgreesOn w s.names)
    (resolved : OrderedMap String (Option String)) : v.settle resolved s = w.settle resolved s := by
  unfold settle
  cases hvalue : s.value? with
  | none => rfl
  | some value =>
    refine congrArg (fun text => resolved.insert s.name (some (String.ofList text)))
      (Setting.expand_congr fun name hname => ?_)
    have hmem : name ∈ s.names := by
      refine List.mem_cons_of_mem _ ?_
      rw [hvalue]
      exact hname
    rw [h name hmem]

theorem resolve_of_agreesOn {ss : List Setting} (h : v.AgreesOn w (ss.flatMap Setting.names)) :
    v.resolve ss = w.resolve ss := by
  rw [resolve_eq_foldl, resolve_eq_foldl]
  generalize OrderedMap.empty = resolved
  induction ss generalizing resolved with
  | nil => rfl
  | cons s rest ih =>
    obtain ⟨hs, hrest⟩ := List.forall_mem_append.1 h
    rw [List.foldl_cons, List.foldl_cons, settle_of_agreesOn hs, ih hrest]

/-- Settings leave something in the names that they set, and in no others. -/
theorem mem_keys_foldl_settle {ss : List Setting} {resolved : OrderedMap String (Option String)} :
    name ∈ (ss.foldl v.settle resolved).keys ↔
      name ∈ resolved.keys ∨ ∃ s ∈ ss, name = s.name := by
  induction ss generalizing resolved with
  | nil => simp
  | cons s rest ih =>
    rw [List.foldl_cons, ih, settle, OrderedMap.mem_keys_insert]
    simp only [List.mem_cons, exists_eq_or_imp]
    exact or_assoc.trans or_left_comm

/-- Whether a variable can be set depends on its name and its value. -/
theorem set_eq_ok_or_error (name value : String) :
    (∀ v : Variables, v.set name value = .ok (v.insert name value)) ∨
      ∃ e, ∀ v : Variables, v.set name value = .error e := by
  unfold set
  split
  · exact Or.inr ⟨_, fun _ => rfl⟩
  · split
    · exact Or.inr ⟨_, fun _ => rfl⟩
    · exact Or.inl fun _ => rfl

/-- A setting is offered with the same success where environments agree on its variable. -/
theorem offer_of_agreesOn {setting : String × Option String} (h : v.AgreesOn w names)
    (hname : setting.1 ∈ names) : EndsAlike names (v.offer setting) (w.offer setting) := by
  obtain ⟨key, value?⟩ := setting
  cases value? with
  | none => exact .ok h
  | some value =>
    have hcontains : v.contains key = w.contains key := by
      rw [Bool.eq_iff_iff, OrderedMap.contains_iff, OrderedMap.contains_iff,
        OrderedMap.mem_keys_iff, OrderedMap.mem_keys_iff, h key hname]
    simp only [offer, hcontains]
    split
    · exact .ok h
    · rcases set_eq_ok_or_error key value with hset | ⟨e, hset⟩
      · rw [hset, hset]
        refine .ok fun name hname => ?_
        rw [OrderedMap.get?_insert, OrderedMap.get?_insert, h name hname]
      · rw [hset, hset]
        exact .error e

/-- So are all settings of a list. -/
theorem offers_of_agreesOn {entries : List (String × Option String)} (h : v.AgreesOn w names)
    (hnames : ∀ e ∈ entries, e.1 ∈ names) :
    EndsAlike names (entries.foldlM offer v) (entries.foldlM offer w) := by
  induction entries generalizing v w with
  | nil => exact .ok h
  | cons e es ih =>
    obtain ⟨hfirst, hrest⟩ := List.forall_mem_cons.1 hnames
    rw [List.foldlM_cons, List.foldlM_cons]
    have hoffer := offer_of_agreesOn h hfirst
    generalize v.offer e = x at hoffer ⊢
    generalize w.offer e = y at hoffer ⊢
    cases hoffer with
    | ok h => exact ih h hrest
    | error fault => exact .error fault

/-- Environments that agree on the names in a settings file get settings from it that agree as much,
    or fail in the same way. -/
theorem withFile_of_agreesOn {file : Option String}
    (h : v.AgreesOn w (Config.variablesFor file)) :
    EndsAlike (Config.variablesFor file) (v.withFile file) (w.withFile file) := by
  cases file with
  | none => exact .ok h
  | some text =>
    have hnames : ∀ name ∈ (Setting.ofFile text).flatMap Setting.names,
        name ∈ Config.variablesFor (some text) := fun name hname =>
      List.mem_append_right _ hname
    have hresolve : v.resolve (Setting.ofFile text) = w.resolve (Setting.ofFile text) :=
      resolve_of_agreesOn fun name hname => h name (hnames name hname)
    show EndsAlike _ ((v.resolve (Setting.ofFile text)).entries.foldlM offer v)
      ((w.resolve (Setting.ofFile text)).entries.foldlM offer w)
    rw [← hresolve]
    refine offers_of_agreesOn h fun e he => hnames _ ?_
    -- The name of an entry is that of a setting.
    have hkey : e.1 ∈ (v.resolve (Setting.ofFile text)).keys := List.mem_map_of_mem he
    obtain hnone | ⟨s, hs, hname⟩ := mem_keys_foldl_settle.1 hkey
    · exact absurd hnone List.not_mem_nil
    · exact List.mem_flatMap.2 ⟨s, hs, hname ▸ List.mem_cons_self⟩

end Variables

/-! ## Commands under environments that agree -/

section Commands

open CommandLine

variable {v w : Variables}

/-- The configuration is made of its variables, and so are the notices. -/
theorem Config.ofVariables_of_agreesOn (h : v.AgreesOn w Config.ownVariables) :
    Config.ofVariables v = Config.ofVariables w ∧ Config.notices v = Config.notices w := by
  obtain ⟨hmarker, htag, hprotected, hpasses⟩ :
      v.get? markerVariable = w.get? markerVariable ∧ v.get? tagVariable = w.get? tagVariable ∧
      v.get? protectedVariable = w.get? protectedVariable ∧
      v.get? passesVariable = w.get? passesVariable := by
    simpa [Variables.AgreesOn, Config.ownVariables] using h
  constructor
  · rw [ofVariables, ofVariables, hmarker, htag, hprotected, hpasses]
  · rw [notices, notices, hpasses]

/-- A command does the same under settings that agree. -/
theorem execute_of_agreesOn (fileText : String) (h : v.AgreesOn w Config.ownVariables)
    (a : Action) : execute fileText v a = execute fileText w a := by
  obtain ⟨hconfig, hnotices⟩ := Config.ofVariables_of_agreesOn h
  have hcompile : ∀ d r, Run.compile d v r = Run.compile d w r := by
    intro d r
    rw [Run.compile, Run.compile, hconfig, hnotices]
  have haction : ∀ text, Run.action text v a = Run.action text w a := by
    intro text
    unfold Run.action
    simp only [hcompile]
  unfold execute
  simp only [haction]

/-- Under environments that agree on the variables of the configuration and of a settings file a
    command does the same. -/
theorem executeIn_of_agreesOn (fileText : String) {file : Option String}
    (h : v.AgreesOn w (Config.variablesFor file)) (a : Action) :
    executeIn fileText v file a = executeIn fileText w file a := by
  have hvariables : ∀ {v w : Variables}, v.AgreesOn w (Config.variablesFor file) →
      v.AgreesOn w Config.ownVariables := fun h name hname => h name (List.mem_append_left _ hname)
  have hsettings := Variables.withFile_of_agreesOn h
  unfold executeIn
  generalize v.withFile file = x at hsettings ⊢
  generalize w.withFile file = y at hsettings ⊢
  cases hsettings with
  | ok hagree => exact execute_of_agreesOn fileText (hvariables hagree) a
  | error e => simp only [execute_of_agreesOn fileText (hvariables h) a]

end Commands

end SchemaView
