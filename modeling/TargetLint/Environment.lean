/-!
# Environments

A host keeps the variables of a process as entries: a name, an equals sign and a
value.  A variable is looked up by the start of an entry, so a name that goes on
into the value finds the rest of it: where `A` is `B=c`, the name `A=B` finds `c`.
Main statement: for names without an equals sign this is a plain look-up.
-/

namespace TargetLint

/-- The variables of a process with their values. -/
structure Environment where
  bindings : List (String × String)
deriving DecidableEq, Repr, Inhabited

namespace Environment

/-- What follows a name and an equals sign in an entry that starts with both. -/
def afterName? (name : List Char) (entry : List Char) : Option (List Char) :=
  match name, entry with
  | [], '=' :: value => some value
  | [], _ => none
  | _ :: _, [] => none
  | c :: name, d :: entry => if c = d then afterName? name entry else none

/-- The entry of a variable. -/
def entry (binding : String × String) : List Char :=
  binding.1.toList ++ '=' :: binding.2.toList

/-- The value of a name; absent where no entry starts with it, or where it is empty. -/
def value? (environment : Environment) (name : String) : Option String :=
  if name = "" then
    none
  else
    environment.bindings.findSome? fun binding =>
      (afterName? name.toList (entry binding)).map String.ofList

/-- A name without equals sign is found only in the entry of a variable of this name. -/
theorem afterName?_append_equals
    {name key : List Char}
    (hname : '=' ∉ name)
    (hkey : '=' ∉ key)
    (value : List Char) :
    afterName? name (key ++ '=' :: value) = if name = key then some value else none := by
  induction name generalizing key with
  | nil =>
      cases key with
      | nil => rfl
      | cons d key =>
          have hd : d ≠ '=' := fun h => hkey (h ▸ List.mem_cons_self ..)
          simp [afterName?, hd]
  | cons c name ih =>
      have hc : c ≠ '=' := fun h => hname (h ▸ List.mem_cons_self ..)
      cases key with
      | nil => simp [afterName?, hc]
      | cons d key =>
          have hname' : '=' ∉ name := fun h => hname (List.mem_cons_of_mem _ h)
          have hkey' : '=' ∉ key := fun h => hkey (List.mem_cons_of_mem _ h)
          simp only [List.cons_append, afterName?, ih hname' hkey', List.cons.injEq]
          by_cases h : c = d <;> simp [h]

/-- A name is looked up plainly where neither it nor the name of a variable has an equals sign. -/
theorem value?_eq_lookup
    {environment : Environment}
    {name : String}
    (hne : name ≠ "")
    (hname : '=' ∉ name.toList)
    (hkeys : ∀ binding ∈ environment.bindings, '=' ∉ binding.1.toList) :
    environment.value? name = environment.bindings.lookup name := by
  obtain ⟨bindings⟩ := environment
  simp only [value?, if_neg hne]
  induction bindings with
  | nil => rfl
  | cons binding others ih =>
      obtain ⟨key, value⟩ := binding
      have hkey : '=' ∉ key.toList := hkeys (key, value) (List.mem_cons_self ..)
      have hothers := ih fun other hother => hkeys other (List.mem_cons_of_mem _ hother)
      rw [List.findSome?_cons, List.lookup_cons, hothers]
      simp only [entry, afterName?_append_equals hname hkey]
      by_cases h : name = key
      · simp [h]
      · have hlist : name.toList ≠ key.toList := fun heq => h (String.toList_inj.1 heq)
        have hbeq : (name == key) = false := beq_false_of_ne h
        simp [hlist, hbeq]

end Environment
end TargetLint
