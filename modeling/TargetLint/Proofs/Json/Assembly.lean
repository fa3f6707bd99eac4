import TargetLint.Json.Reader
import TargetLint.Proofs.Json.Scanner

/-!
# Assembly gives back the value

Assembling the tokens of a value gives back this value, whatever containers are open
around it.  Together with the scanner this means that every JSON text of a value is
read as this value.
-/

namespace TargetLint
namespace Json

/-- Pieces with a separator between them are the first one and the others after a separator each. -/
theorem intercalate_singleton_cons
    {α : Type}
    (separator : α)
    (first : List α)
    (others : List (List α)) :
    [separator].intercalate (first :: others) =
      first ++ others.flatMap (separator :: ·) := by
  induction others generalizing first with
  | nil => simp
  | cons second others ih =>
      rw [List.intercalate_cons_cons, ih second]
      simp

/-- Nothing in the tokens keeps a number from its end, if what comes after them ends one. -/
def EndsNumbers (tokens : List Token) : Prop :=
  ∀ rest : List Token, rest.IsChain Token.MayFollow →
    (∀ token ∈ rest.head?, token.endsNumber = true) → (tokens ++ rest).IsChain Token.MayFollow

theorem isChain_cons_iff_of_not_number
    {token : Token}
    (h : token.isNumber = false)
    (rest : List Token) :
    (token :: rest).IsChain Token.MayFollow ↔ rest.IsChain Token.MayFollow := by
  have hfollow : ∀ other ∈ rest.head?, token.MayFollow other := by
    intro other _ hnumber
    rw [h] at hnumber
    cases hnumber
  rw [List.isChain_cons]
  exact ⟨And.right, fun hrest => ⟨hfollow, hrest⟩⟩

theorem EndsNumbers.cons
    {token : Token}
    {tokens : List Token}
    (h : token.isNumber = false)
    (htokens : EndsNumbers tokens) :
    EndsNumbers (token :: tokens) := by
  intro rest hrest hhead
  rw [List.cons_append, isChain_cons_iff_of_not_number h]
  exact htokens rest hrest hhead

/-- Pieces with commas between them end numbers up to a closing bracket. -/
theorem endsNumbers_intercalate
    {pieces : List (List Token)}
    (h : ∀ piece ∈ pieces, EndsNumbers piece)
    {close : Token}
    (hnumber : close.isNumber = false)
    (hclose : close.endsNumber = true) :
    EndsNumbers ([.comma].intercalate pieces ++ [close]) := by
  intro rest hrest _
  have hend : (close :: rest).IsChain Token.MayFollow :=
    (isChain_cons_iff_of_not_number hnumber rest).2 hrest
  rw [List.append_assoc, List.singleton_append]
  cases pieces with
  | nil => simpa using hend
  | cons first others =>
      rw [intercalate_singleton_cons, List.append_assoc]
      have hothers : (others.flatMap (Token.comma :: ·) ++ close :: rest).IsChain Token.MayFollow ∧
          ∀ token ∈ (others.flatMap (Token.comma :: ·) ++ close :: rest).head?,
            token.endsNumber = true := by
        have hpieces : ∀ piece ∈ others, EndsNumbers piece :=
          fun piece hpiece => h piece (List.mem_cons_of_mem _ hpiece)
        induction others with
        | nil =>
            refine ⟨by simpa using hend, ?_⟩
            intro token htoken
            obtain rfl := Option.some.inj htoken
            exact hclose
        | cons second others ih =>
            obtain ⟨hchain, hhead⟩ := ih (by simp_all) (by simp_all)
            rw [List.flatMap_cons, List.cons_append, List.cons_append, List.append_assoc,
              isChain_cons_iff_of_not_number rfl]
            refine ⟨hpieces second (List.mem_cons_self ..) _ hchain hhead, ?_⟩
            intro token htoken
            obtain rfl := Option.some.inj htoken
            rfl
      exact h first (List.mem_cons_self ..) _ hothers.1 hothers.2

mutual

/-- In the tokens of a value, every number is ended by what directly follows it. -/
theorem endsNumbers_tokens : ∀ json : Json, EndsNumbers json.tokens
  | .null | .boolean _ | .string _ =>
      EndsNumbers.cons rfl fun _ hrest _ => hrest
  | .number _ => by
      intro rest hrest hhead
      exact List.isChain_cons.2 ⟨fun token htoken _ => hhead token htoken, hrest⟩
  | .array items =>
      EndsNumbers.cons rfl (endsNumbers_intercalate (endsNumbers_items items) rfl rfl)
  | .object members =>
      EndsNumbers.cons rfl (endsNumbers_intercalate (endsNumbers_members members) rfl rfl)

theorem endsNumbers_items : ∀ items : List Json, ∀ piece ∈ itemTokens items, EndsNumbers piece
  | [], piece, hpiece => nomatch hpiece
  | item :: items, piece, hpiece => by
      rcases List.mem_cons.1 hpiece with rfl | hpiece
      · exact endsNumbers_tokens item
      · exact endsNumbers_items items piece hpiece

theorem endsNumbers_members :
    ∀ members : List (Option String × Json), ∀ piece ∈ memberTokens members, EndsNumbers piece
  | [], piece, hpiece => nomatch hpiece
  | (key, value) :: members, piece, hpiece => by
      rcases List.mem_cons.1 hpiece with rfl | hpiece
      · exact EndsNumbers.cons rfl (EndsNumbers.cons rfl (endsNumbers_tokens value))
      · exact endsNumbers_members members piece hpiece

end

theorem isChain_tokens (json : Json) : json.tokens.IsChain Token.MayFollow := by
  have h := endsNumbers_tokens json [] (by simp) (by simp)
  rwa [List.append_nil] at h

namespace Assembly

/-- The assembly after some tokens. -/
def run (assembly : Assembly) (tokens : List Token) : Option Assembly :=
  tokens.foldlM step? assembly

theorem run_cons
    {assembly next : Assembly}
    {token : Token}
    (h : assembly.step? token = some next)
    (tokens : List Token) :
    assembly.run (token :: tokens) = next.run tokens := by
  simp [run, h]

theorem run_append
    {assembly next : Assembly}
    {first : List Token}
    (h : assembly.run first = some next)
    (second : List Token) :
    assembly.run (first ++ second) = next.run second := by
  rw [run] at h
  rw [run, List.foldlM_append, h]
  rfl

mutual

/-- The tokens of a value are assembled into this value, whatever is open around it. -/
theorem run_tokens (frames : List Frame) :
    ∀ json : Json, run ⟨.value, frames⟩ json.tokens = some ⟨.after json, frames⟩
  | .null | .boolean _ | .number _ | .string _ => rfl
  | .array [] => rfl
  | .array (item :: items) => by
      have hfirst : run ⟨.firstItem, .array [] :: frames⟩ item.tokens =
          run ⟨.value, .array [] :: frames⟩ item.tokens := by
        cases item <;> rfl
      have hopen : step? ⟨.value, frames⟩ .openArray = some ⟨.firstItem, .array [] :: frames⟩ := rfl
      have hitem := run_tokens (.array [] :: frames) item
      rw [tokens, itemTokens, intercalate_singleton_cons, List.append_assoc, run_cons hopen,
        run_append (hfirst.trans hitem)]
      exact run_items frames [] item items
  | .object [] => rfl
  | .object ((key, value) :: members) => by
      have hvalue := run_tokens (.object [] key :: frames) value
      have hmember : run ⟨.value, frames⟩ (.openObject :: .string key :: .colon :: value.tokens) =
          some ⟨.after value, .object [] key :: frames⟩ := hvalue
      rw [tokens, memberTokens, intercalate_singleton_cons, List.append_assoc, ← List.cons_append,
        run_append hmember]
      exact run_members frames [] key value members

/-- Further items are assembled into the array that is open. -/
theorem run_items (frames : List Frame) (before : List Json) (item : Json) :
    ∀ items : List Json,
      run ⟨.after item, .array before :: frames⟩
          ((itemTokens items).flatMap (.comma :: ·) ++ [.closeArray]) =
        some ⟨.after (.array (before.reverse ++ item :: items)), frames⟩
  | [] => by simp [itemTokens, run, step?, continue?]
  | next :: items => by
      have hcomma : step? ⟨.after item, .array before :: frames⟩ .comma =
          some ⟨.value, .array (item :: before) :: frames⟩ := rfl
      have hnext := run_tokens (.array (item :: before) :: frames) next
      rw [itemTokens, List.flatMap_cons, List.cons_append, List.cons_append, List.append_assoc,
        run_cons hcomma, run_append hnext, run_items frames (item :: before) next items]
      simp

/-- Further members are assembled into the object that is open. -/
theorem run_members
    (frames : List Frame)
    (before : List (Option String × Json))
    (key : Option String)
    (value : Json) :
    ∀ members : List (Option String × Json),
      run ⟨.after value, .object before key :: frames⟩
          ((memberTokens members).flatMap (.comma :: ·) ++ [.closeObject]) =
        some ⟨.after (.object (before.reverse ++ (key, value) :: members)), frames⟩
  | [] => by simp [memberTokens, run, step?, continue?]
  | (nextKey, next) :: members => by
      have hnext := run_tokens (.object ((key, value) :: before) nextKey :: frames) next
      have hmember : run ⟨.after value, .object before key :: frames⟩
          (.comma :: .string nextKey :: .colon :: next.tokens) =
            some ⟨.after next, .object ((key, value) :: before) nextKey :: frames⟩ := hnext
      rw [memberTokens, List.flatMap_cons, List.append_assoc, run_append hmember,
        run_members frames ((key, value) :: before) nextKey next members]
      simp

end

end Assembly

/-- The tokens of a value denote this value. -/
theorem ofTokens?_tokens (json : Json) : ofTokens? json.tokens = some json := by
  have hrun : json.tokens.foldlM Assembly.step? .start = some ⟨.after json, []⟩ :=
    Assembly.run_tokens [] json
  rw [ofTokens?, hrun]
  rfl

/-- A JSON text of a value is read as this value, in whichever way it is written. -/
theorem read?_of_isWritten
    {json : Json}
    {text : String}
    (h : json.IsWritten text) :
    read? text = some json := by
  rw [read?, tokens?_of_written h (isChain_tokens json)]
  exact ofTokens?_tokens json

end Json
end TargetLint
