import WslPlus.Lib.Keyed

/-!
# Documents of yaml-cpp

A document is the tree of its nodes, and a file holds the tree that was written to it. What
is asked of a node of another kind is answered as yaml-cpp answers it; `none` is an exception.
-/

namespace WslPlus.Yaml

abbrev Text := List Char

inductive Node where
  | null
  | scalar (text : Text)
  | sequence (items : List Node)
  | map (entries : List (Text × Node))

def Node.subscript (key : Text) : Node → Option (Option Node)
  | .null => some none
  | .scalar _ => none
  | .sequence _ => some none
  | .map entries => some (Keyed.value key entries)

def Node.toMap : Node → Option (List (Text × Node))
  | .null => some []
  | .scalar _ => none
  | .sequence items => some (items.zipIdx.map fun item => ((Nat.repr item.2).toList, item.1))
  | .map entries => some entries

def Node.items : Node → Option (List Node)
  | .null => some []
  | .scalar _ => some []
  | .sequence items => some items
  | .map [] => some []
  | .map (_ :: _) => none

/-- `as<std::string>()`. -/
def Node.asString : Node → Option Text
  | .null => some "null".toList
  | .scalar text => some text
  | .sequence _ => none
  | .map _ => none

/-- `as<std::string>(fallback)` of an element. -/
def asStringOr (fallback : Text) (element : Option Node) : Text := (element.bind Node.asString).getD fallback

@[simp] theorem asStringOr_scalar (fallback text : Text) : asStringOr fallback (some (.scalar text)) = text := rfl

@[simp] theorem asStringOr_none (fallback : Text) : asStringOr fallback none = fallback := rfl

def entryUnless (c : Prop) [Decidable c] (key : Text) (node : Node) : List (Text × Node) :=
  if c then [] else [(key, node)]

theorem value_entryUnless (k k' : Text) (v : Node) (c : Prop) [Decidable c] :
    Keyed.value k (entryUnless c k' v) = if c then none else if k' = k then some v else none := by
  unfold entryUnless
  split
  · rfl
  · rfl

theorem asStringOr_unless (text : Text) :
    asStringOr [] (if text = [] then none else some (.scalar text)) = text := by
  split
  · rename_i h
    exact h.symm
  · rfl

def Node.pushBack (list item : Node) : Option Node :=
  match list with
  | .null => some (.sequence [item])
  | .scalar _ => none
  | .sequence items => some (.sequence (items ++ [item]))
  | .map _ => none

/-- The conversions of numbers, which read what they have written. -/
structure Numbers where
  ofInt : Int32 → Text
  toInt : Text → Option Int32
  toInt_ofInt : ∀ n, toInt (ofInt n) = some n
  ofUInt : UInt32 → Text
  toUInt : Text → Option UInt32
  toUInt_ofUInt : ∀ n, toUInt (ofUInt n) = some n

/-- `as<int>()`. -/
def Numbers.asInt (numbers : Numbers) : Node → Option Int32
  | .scalar text => numbers.toInt text
  | _ => none

/-- `as<uint32_t>(fallback)` of an element. -/
def Numbers.asUIntOr (numbers : Numbers) (fallback : UInt32) : Option Node → UInt32
  | some (.scalar text) => (numbers.toUInt text).getD fallback
  | _ => fallback

def readDecimal (text : Text) : Option Nat :=
  if text ≠ [] ∧ text.all Char.isDigit = true then some (Nat.ofDigitChars 10 text 0) else none

theorem readDecimal_toDigits (n : Nat) : readDecimal (Nat.toDigits 10 n) = some n := by
  have hall : (Nat.toDigits 10 n).all Char.isDigit = true :=
    List.all_eq_true.mpr fun c hc => Nat.isDigit_of_mem_toDigits (by decide) (by decide) hc
  rw [readDecimal, if_pos ⟨Nat.toDigits_ne_nil, hall⟩, Nat.ofDigitChars_toDigits (by decide) (by decide)]

def decimal : Numbers where
  ofInt n := if n.toInt < 0 then '-' :: Nat.toDigits 10 n.toInt.natAbs else Nat.toDigits 10 n.toInt.natAbs
  toInt text := if text.head? = some '-' then (readDecimal text.tail).map fun k : Nat => .ofInt (-(k : Int))
    else (readDecimal text).map fun k : Nat => .ofInt (k : Int)
  toInt_ofInt n := by
    by_cases hneg : n.toInt < 0
    · have hval : -(n.toInt.natAbs : Int) = n.toInt := by omega
      simp only [hneg, if_true, List.head?_cons, List.tail_cons, readDecimal_toDigits, Option.map_some, hval,
        Int32.ofInt_toInt]
    · have hval : (n.toInt.natAbs : Int) = n.toInt := by omega
      have hhead : (Nat.toDigits 10 n.toInt.natAbs).head? ≠ some '-' := fun h => by
        have hdigit := Nat.isDigit_of_mem_toDigits (b := 10) (by decide) (by decide) (List.mem_of_head? h)
        exact absurd hdigit (by decide)
      simp only [hneg, if_false, hhead, readDecimal_toDigits, Option.map_some, hval, Int32.ofInt_toInt]
  ofUInt n := Nat.toDigits 10 n.toNat
  toUInt text := (readDecimal text).map .ofNat
  toUInt_ofUInt n := by simp only [readDecimal_toDigits, Option.map_some, UInt32.ofNat_toNat]

theorem mapM_written {α β : Type} {parse : Node → Option β} {write : α → Node} {f : α → β}
    (h : ∀ x, parse (write x) = some (f x)) (l : List α) : (l.map write).mapM parse = some (l.map f) := by
  induction l with
  | nil => rfl
  | cons x l ih => simp [h, ih]

theorem mapM_parse {α : Type} {parse : Node → Option α} {write : α → Node} (h : ∀ x, parse (write x) = some x)
    (l : List α) : (l.map write).mapM parse = some l := by
  have hid := mapM_written (f := id) h l
  rwa [List.map_id] at hid

abbrev File := Option Node

/-- What a call comes to before it opens the file: an exception, a return, or what it writes. -/
inductive Effect where
  | throws
  | returns
  | writes (file : File)

def Effect.perform (opens : Bool) (file : File) : Effect → Bool × File
  | .throws => (false, file)
  | .returns => (true, file)
  | .writes file' => if opens then (true, file') else (false, file)

theorem Effect.perform_throws (opens : Bool) (file : File) (effect : Effect)
    (h : (effect.perform opens file).1 = false) : (effect.perform opens file).2 = file := by
  cases effect with
  | throws => rfl
  | returns => rfl
  | writes file' =>
    cases opens with
    | false => rfl
    | true => cases h

end WslPlus.Yaml
