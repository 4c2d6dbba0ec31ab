/-
Tokens that write values.

`Json.tokens` writes a value of any depth. The reader gets it back whatever is open around it:
inside an array or object, what is left to read of it are the further items or members and its end.
So a text that spells the tokens of a value is read as that value.
-/
import RenderFold.Json.Tree
import RenderFold.Proofs.Json.Token

namespace RenderFold

namespace Json

mutual

def tokens : Json → List Token
  | .null => [.null]
  | .bool b => [.bool b]
  | .number n => [.number n]
  | .text s => [.text s]
  | .array [] => [.openArray, .closeArray]
  | .array (j :: rest) => .openArray :: (j.tokens ++ furtherItems rest)
  | .object [] => [.openObject, .closeObject]
  | .object ((name, j) :: rest) =>
      .openObject :: .text name :: .colon :: (j.tokens ++ furtherMembers rest)

/-- The tokens of an array after one of its items. -/
def furtherItems : List Json → List Token
  | [] => [.closeArray]
  | j :: rest => .comma :: (j.tokens ++ furtherItems rest)

/-- The tokens of an object after one of its members. -/
def furtherMembers : List (Option String × Json) → List Token
  | [] => [.closeObject]
  | (name, j) :: rest => .comma :: .text name :: .colon :: (j.tokens ++ furtherMembers rest)

end

namespace Nest

/-- Where an array begins, its first item is read as any value is: none begins with the end of an
array. -/
theorem foldlM_firstItem (j : Json) (enclosing : List Enclosing) (after : List Token) :
    (j.tokens ++ after).foldlM step ⟨enclosing, .firstItem⟩
      = (j.tokens ++ after).foldlM step ⟨enclosing, .value⟩ := by
  cases j with
  | null => rw [tokens]; rfl
  | bool b => rw [tokens]; rfl
  | number n => rw [tokens]; rfl
  | text s => rw [tokens]; rfl
  | array items =>
      cases items with
      | nil => rw [tokens]; rfl
      | cons j rest => rw [tokens]; rfl
  | object members =>
      cases members with
      | nil => rw [tokens]; rfl
      | cons m rest => rw [tokens]; rfl

-- The induction is on the value. What is open around it and what follows it are arbitrary, so that
-- the items and members inside it fall under the same statement.
mutual

/-- Where a value may come, the tokens of a value are read as that value, whatever follows. -/
theorem foldlM_tokens (enclosing : List Enclosing) (after : List Token) :
    ∀ j : Json, (j.tokens ++ after).foldlM step ⟨enclosing, .value⟩
      = after.foldlM step ⟨enclosing, .afterValue j⟩
  | .null => by rw [tokens]; rfl
  | .bool b => by rw [tokens]; rfl
  | .number n => by rw [tokens]; rfl
  | .text s => by rw [tokens]; rfl
  | .array [] => by rw [tokens]; rfl
  | .array (j :: rest) => calc
      ((Json.array (j :: rest)).tokens ++ after).foldlM step ⟨enclosing, .value⟩
          = (j.tokens ++ (furtherItems rest ++ after)).foldlM step
              ⟨.array [] :: enclosing, .firstItem⟩ := by
            rw [tokens, List.cons_append, List.append_assoc]
            rfl
      _ = (furtherItems rest ++ after).foldlM step ⟨.array [] :: enclosing, .afterValue j⟩ := by
            rw [foldlM_firstItem, foldlM_tokens _ _ j]
      _ = after.foldlM step ⟨enclosing, .afterValue (.array (j :: rest))⟩ :=
            foldlM_furtherItems enclosing after [] j rest
  | .object [] => by rw [tokens]; rfl
  | .object ((name, j) :: rest) => calc
      ((Json.object ((name, j) :: rest)).tokens ++ after).foldlM step ⟨enclosing, .value⟩
          = (j.tokens ++ (furtherMembers rest ++ after)).foldlM step
              ⟨.object [] name :: enclosing, .value⟩ := by
            simp only [tokens, List.cons_append, List.append_assoc]
            rfl
      _ = (furtherMembers rest ++ after).foldlM step
            ⟨.object [] name :: enclosing, .afterValue j⟩ := foldlM_tokens _ _ j
      _ = after.foldlM step ⟨enclosing, .afterValue (.object ((name, j) :: rest))⟩ :=
            foldlM_furtherMembers enclosing after [] name j rest

/-- After an item of an array, the rest of the array is read; `before` are the items before it. -/
theorem foldlM_furtherItems (enclosing : List Enclosing) (after : List Token)
    (before : List Json) (j : Json) :
    ∀ rest : List Json,
      (furtherItems rest ++ after).foldlM step ⟨.array before :: enclosing, .afterValue j⟩
        = after.foldlM step ⟨enclosing, .afterValue (.array (before.reverse ++ j :: rest))⟩
  | [] => by
      rw [furtherItems, ← List.reverse_cons]
      rfl
  | k :: rest => calc
      (furtherItems (k :: rest) ++ after).foldlM step ⟨.array before :: enclosing, .afterValue j⟩
          = (k.tokens ++ (furtherItems rest ++ after)).foldlM step
              ⟨.array (j :: before) :: enclosing, .value⟩ := by
            rw [furtherItems, List.cons_append, List.append_assoc]
            rfl
      _ = (furtherItems rest ++ after).foldlM step
            ⟨.array (j :: before) :: enclosing, .afterValue k⟩ := foldlM_tokens _ _ k
      _ = after.foldlM step
            ⟨enclosing, .afterValue (.array ((j :: before).reverse ++ k :: rest))⟩ :=
            foldlM_furtherItems enclosing after (j :: before) k rest
      _ = after.foldlM step
            ⟨enclosing, .afterValue (.array (before.reverse ++ j :: k :: rest))⟩ := by
            rw [List.reverse_cons, List.append_assoc, List.singleton_append]

/-- After a member of an object, the rest of the object is read. -/
theorem foldlM_furtherMembers (enclosing : List Enclosing) (after : List Token)
    (before : List (Option String × Json)) (name : Option String) (j : Json) :
    ∀ rest : List (Option String × Json),
      (furtherMembers rest ++ after).foldlM step ⟨.object before name :: enclosing, .afterValue j⟩
        = after.foldlM step
            ⟨enclosing, .afterValue (.object (before.reverse ++ (name, j) :: rest))⟩
  | [] => by
      rw [furtherMembers, ← List.reverse_cons]
      rfl
  | (other, k) :: rest => calc
      (furtherMembers ((other, k) :: rest) ++ after).foldlM step
          ⟨.object before name :: enclosing, .afterValue j⟩
          = (k.tokens ++ (furtherMembers rest ++ after)).foldlM step
              ⟨.object ((name, j) :: before) other :: enclosing, .value⟩ := by
            simp only [furtherMembers, List.cons_append, List.append_assoc]
            rfl
      _ = (furtherMembers rest ++ after).foldlM step
            ⟨.object ((name, j) :: before) other :: enclosing, .afterValue k⟩ :=
            foldlM_tokens _ _ k
      _ = after.foldlM step ⟨enclosing, .afterValue
            (.object (((name, j) :: before).reverse ++ (other, k) :: rest))⟩ :=
            foldlM_furtherMembers enclosing after ((name, j) :: before) other k rest
      _ = after.foldlM step ⟨enclosing, .afterValue
            (.object (before.reverse ++ (name, j) :: (other, k) :: rest))⟩ := by
            rw [List.reverse_cons, List.append_assoc, List.singleton_append]

end

end Nest

/-- The tokens of a value are read as that value. -/
theorem ofTokens?_tokens (j : Json) : ofTokens? j.tokens = some j := by
  have hread := Nest.foldlM_tokens [] [] j
  rw [List.append_nil] at hread
  have hstart : j.tokens.foldlM Nest.step Nest.start = some ⟨[], .afterValue j⟩ := hread
  rw [ofTokens?, hstart]
  rfl

/-- A text that spells a value is read as that value. -/
theorem parse?_of_spells {j : Json} {text : String} (h : Spells j.tokens text.toList) :
    parse? text = some j := by
  rw [parse?, h.tokens?_eq]
  exact ofTokens?_tokens j

end Json

end RenderFold
