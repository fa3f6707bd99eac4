import TargetLint.Config
import TargetLint.Environment
import Mathlib.Data.List.Basic

/-!
# Settings from a configuration file

The variables that a configuration text refers to are asked of the host one by one, and
in the end they are replaced as if the host were at hand.  So the settings for a command
line can be told from what the host has: the file that is given, named by a variable or
kept at home, and the text of that file.  Where the host has the variables of an
environment, a reference to a name without an equals sign is a plain look-up.
-/

namespace TargetLint

/-- What a text expands to depends on the names that it refers to and on no others. -/
theorem Text.expand_congr
    {text : String}
    {first second : String → Option String}
    (h : ∀ name ∈ references text, first name = second name) :
    expand first text = expand second text := by
  rw [expand, expand]
  refine congrArg String.ofList (List.flatMap_congr fun part hpart => ?_)
  rcases part with c | _ | ⟨c, rest⟩
  · rfl
  · rfl
  · have hname : String.ofList (c :: rest) ∈ references text :=
      List.mem_filterMap.2 ⟨_, hpart, rfl⟩
    exact congrArg (fun value => (value.getD "").toList) (h _ hname)

theorem Text.ne_empty_of_mem_references
    {text name : String}
    (h : name ∈ references text) :
    name ≠ "" := by
  obtain ⟨part, -, hname⟩ := List.mem_filterMap.1 h
  rcases part with c | _ | ⟨c, rest⟩
  · cases hname
  · cases hname
  · rw [← Option.some.inj hname]
    simp

namespace Config

variable {host : Host} {settings : Settings} {first second : String → Option String}

/-- The settings that a text gives by the variables of an environment. -/
def ofTextIn
    (environment : String → Option String)
    (text : String) :
    Except ConfigFailure Settings :=
  match ofText text with
  | .error error => .error (.rejected error)
  | .ok settings => (substitute environment settings).mapError .invalid

/-- The variables of a host. -/
def variablesOf (host : Host) (name : String) : Option String :=
  host (.variable name)

theorem substitute_congr
    (h : ∀ name ∈ references settings, first name = second name) :
    substitute first settings = substitute second settings := by
  have hexpand : ∀ text ∈ settings.program :: settings.extraArguments,
      Text.expand first text = Text.expand second text := by
    intro text htext
    refine Text.expand_congr fun name hname => h name ?_
    exact List.mem_flatMap.2 ⟨text, htext, hname⟩
  have harguments : settings.extraArguments.map (Text.expand first) =
      settings.extraArguments.map (Text.expand second) :=
    List.map_congr_left fun argument hargument =>
      hexpand argument (List.mem_cons_of_mem _ hargument)
  rw [substitute, substitute, harguments, hexpand settings.program List.mem_cons_self]

/-- What was asked for is found, with the value that the host gave. -/
theorem lookup_valuesOf
    (names : List String)
    (name : String) :
    ((valuesOf names).value host).lookup name =
      if name ∈ names then variablesOf host name else none := by
  induction names with
  | nil => rfl
  | cons asked rest ih =>
      have hvalues : (valuesOf (asked :: rest)).value host =
          ((variablesOf host asked).map fun text => (asked, text)).toList ++
            (valuesOf rest).value host := by
        rw [valuesOf, Consult.value_bind, Consult.value_bind, Consult.value_pure]
        rfl
      rw [hvalues, List.lookup_append, ih]
      by_cases hname : name = asked
      · rw [hname]
        cases variablesOf host asked <;> simp
      · cases variablesOf host asked <;> simp [hname]

/-- The references of a text are replaced by what the host has for them. -/
theorem value_substituted (text : String) :
    (substituted text).value host = ofTextIn (variablesOf host) text := by
  rw [substituted, ofTextIn]
  cases ofText text with
  | error error => rfl
  | ok settings =>
      rw [Consult.value_bind, Consult.value_pure]
      refine congrArg (Except.mapError _) (substitute_congr fun name hname => ?_)
      rw [lookup_valuesOf, if_pos hname]

/-- The settings that a file gives on a host; the default where there is no such file. -/
def settingsAt (host : Host) (path : Path) : Except ConfigError Settings :=
  if host (.fileExists path) = true then
    match (host (.readText path) : Option String) with
    | none => .error ⟨path, .unreadable⟩
    | some text => (ofTextIn (variablesOf host) text).mapError (.mk path)
  else
    .ok .default

theorem value_ofFile (path : Path) :
    ((ofFile path).value host).map (fun settings => settings.getD .default) =
      settingsAt host path := by
  rw [ofFile, settingsAt, Consult.value_bind, Consult.value_question]
  cases hexists : host (.fileExists path) with
  | false => rfl
  | true =>
      simp only [Bool.not_true, Bool.false_eq_true, if_false, if_true]
      rw [Consult.value_bind, Consult.value_question]
      cases hread : (host (.readText path) : Option String) with
      | none => rfl
      | some text =>
          dsimp only
          rw [Consult.value_bind, Consult.value_pure, value_substituted]
          cases ofTextIn (variablesOf host) text <;> rfl

theorem value_ofDefaultFile :
    ofDefaultFile.value host =
      (file? (variablesOf host fileVariable) (host .homeDirectory)).elim (.ok none)
        fun path => (ofFile path).value host := by
  rw [ofDefaultFile, Consult.value_bind, Consult.value_bind, Consult.value_question,
    Consult.value_question, variablesOf]
  cases file? (host (.variable fileVariable)) (host .homeDirectory) <;> rfl

/--
The settings for a command line, told from what the host has.  They are those of the file that is
given, or else named by a variable, or else kept at home, and the default where there is none.
Where the host has the variables of an environment, and no name in it or in the text has an equals
sign, references are replaced by plain look-up.
-/
theorem settings_by_host
    (given : Option Path)
    (host : Host) :
    (Config.settings given).value host =
        (given.or (file? (variablesOf host fileVariable) (host .homeDirectory))).elim
          (.ok .default) (settingsAt host) ∧
      ∀ (environment : Environment) (text : String),
        (∀ name, variablesOf host name = environment.value? name) →
        (∀ binding ∈ environment.bindings, '=' ∉ binding.1.toList) →
        (∀ settings, ofText text = .ok settings →
          ∀ name ∈ references settings, '=' ∉ name.toList) →
        ofTextIn (variablesOf host) text =
          ofTextIn (fun name => environment.bindings.lookup name) text := by
  constructor
  · rw [Config.settings, Consult.value_bind, Consult.value_pure]
    cases given with
    | some path => exact value_ofFile path
    | none =>
        rw [Option.elim_none, value_ofDefaultFile, Option.none_or]
        cases file? (variablesOf host fileVariable) (host .homeDirectory) with
        | none => rfl
        | some path => exact value_ofFile path
  · intro environment text hhost hbindings hnames
    rw [ofTextIn, ofTextIn]
    cases hread : ofText text with
    | error error => rfl
    | ok settings =>
        refine congrArg (Except.mapError _) (substitute_congr fun name hname => ?_)
        obtain ⟨part, -, hpart⟩ := List.mem_flatMap.1 hname
        rw [hhost, Environment.value?_eq_lookup (Text.ne_empty_of_mem_references hpart)
          (hnames settings hread name hname) hbindings]

end Config
end TargetLint
