import WslPlus.Lib.Shell

/-!
# Fields put into a command line

A text without blanks that is put into a command line, between single quotes or as it
stands, is meant to be one argument. It is read so exactly if it has no quote, or no
character that is special in a word. The proof follows a field that has one: the first
such character is not read as itself, and what comes behind it cannot make up for that
before the blank after the field.
-/

namespace WslPlus.Shell

open List Option

/-- What an item is among the arguments of a command: there `=` is a character, and so is a
tilde that does not start a word. -/
def Item.settle (atStart : Bool) : Item → Item
  | .assign => .char '='
  | .active c => if c = '~' && !atStart then .char '~' else .active c
  | i => i

def Item.isBreak : Item → Bool
  | .wordEnd => true
  | .op _ _ => true
  | .substOpen _ => true
  | _ => false

def asWritten : Bool → List Item → List Item
  | _, [] => []
  | atStart, i :: is => i.settle atStart :: asWritten i.isBreak is

def readAs (text : List Char) : Option (List Item) := (lex text).map (asWritten true)

def isPlain (c : Char) : Bool := !"'\"\\$`() \t;&|<>\n*?[".toList.contains c

def Plain (field : List Char) : Prop :=
  field.head? ≠ some '#' ∧ field.head? ≠ some '~' ∧ ∀ c ∈ field, isPlain c = true

-- The quantifier runs over the characters of the text and not over all characters.
instance (field : List Char) : Decidable (Plain field) :=
  @instDecidableAnd _ _ inferInstance (@instDecidableAnd _ _ inferInstance (List.decidableBAll _ field))

def Item.Foreign (i : Item) : Prop := ∀ atStart c, i.settle atStart ≠ .char c

theorem asWritten_append_of_break {xs : List Item} {i : Item} (hi : i.isBreak = true) (b : Bool)
    (ys : List Item) : asWritten b (xs ++ i :: ys) = asWritten b (xs ++ [i]) ++ asWritten true ys := by
  induction xs generalizing b with
  | nil => simp [asWritten, hi]
  | cons x xs ih => simp [asWritten, ih]

theorem asWritten_chars (b : Bool) (cs : List Char) (is : List Item) (hcs : cs ≠ []) :
    asWritten b (cs.map Item.char ++ is) = cs.map Item.char ++ asWritten false is := by
  induction cs generalizing b with
  | nil => exact absurd rfl hcs
  | cons c cs ih =>
    cases cs with
    | nil => rfl
    | cons d cs =>
      have hrest := ih false (by simp)
      simp only [map_cons, cons_append] at hrest ⊢
      simp only [asWritten, Item.settle, Item.isBreak] at hrest ⊢
      rw [hrest]

namespace Lexer

def Spells (items : List Item) (cs : List Char) : Prop :=
  ∀ rest, asWritten false (items ++ rest) = cs.map Item.char ++ asWritten false rest

theorem spells_nil : Spells [] [] := fun _ => rfl

theorem spells_char (c : Char) : Spells [.char c] [c] := fun _ => rfl

/-- What a mode still owes of the characters read into it; a word owes one once a character
was not read as itself. An escape owes as much as the caller needs. -/
def owed (w : Nat) : Mode → Nat
  | .escape => w
  | .doubleEscape => 2
  | _ => 1

def Stays (w : Nat) (l : Lexer) (r : Lexer × List Item) : Prop :=
  ∃ cs : List Char, Spells r.2 cs ∧ Literal r.1 ∧ cs.length + owed w r.1.mode ≤ 1 + owed w l.mode

def Departs (r : Lexer × List Item) : Prop :=
  (∃ i is, i.Foreign ∧ r.2 = i :: is) ∨ (r.2 = [] ∧ Expanding r.1)

def Steps (w : Nat) (l : Lexer) (r : Lexer × List Item) : Prop := Stays w l r ∨ Departs r

section Step

variable {w : Nat} {l : Lexer}

theorem steps_ite {r r' : Lexer × List Item} {p : Prop} [Decidable p] (hr : p → Steps w l r)
    (hr' : ¬ p → Steps w l r') : Steps w l (if p then r else r') := by
  by_cases h : p
  · rw [if_pos h]
    exact hr h
  · rw [if_neg h]
    exact hr' h

theorem foreign_wordEnd : Item.wordEnd.Foreign := by
  intro b c h
  cases h

theorem foreign_expansion (c : Char) : (Item.expansion c).Foreign := by
  intro b d h
  cases h

variable {c : Char}

theorem foreign_active (hc : c ≠ '~') : (Item.active c).Foreign := by
  intro b d h
  simp [Item.settle, hc] at h

theorem steps_foreign {r : Lexer × List Item} {i : Item} {is : List Item} (hi : i.Foreign)
    (hr : r.2 = i :: is) : Steps w l r := .inr (.inl ⟨i, is, hi, hr⟩)

theorem steps_readOp {l' : Lexer} (hl : l'.inWord = true) (d : Char) : Steps w l (l'.readOp d) := by
  have hitems : (l'.readOp d).2 = .wordEnd :: [.op d (l'.lastOp.any fun e => joins e d)] := by
    simp only [readOp, endWord, hl, if_true]
    rfl
  exact steps_foreign foreign_wordEnd hitems

theorem Literal.steps_readWord (hw : w ≤ 2) (hl : Literal l) (hm : l.mode = .word) (c : Char) :
    Steps w l (l.readWord c) := by
  have hin := hl.inWord
  have hfr := hl.frames
  unfold Lexer.readWord
  refine steps_ite (fun _ => .inl ⟨[], spells_nil, ⟨rfl, hfr, by simp⟩, ?_⟩) fun _ => ?_
  · simp [owed, hm]
  refine steps_ite (fun _ => .inl ⟨[], spells_nil, ⟨rfl, hfr, by simp⟩, ?_⟩) fun _ => ?_
  · simp [owed, hm]
  refine steps_ite (fun _ => .inl ⟨[], spells_nil, ⟨hin, hfr, by simp⟩, ?_⟩) fun _ => ?_
  · simpa [owed, hm] using hw
  refine steps_ite (fun _ => .inr (.inr ⟨rfl, .inl ⟨_, rfl⟩⟩)) fun _ => ?_
  refine steps_ite (fun _ => steps_foreign (foreign_expansion c) rfl) fun _ => ?_
  refine steps_ite (fun _ => ?_) fun _ => ?_
  · have hend : l.endWord = [.wordEnd] := by simp only [endWord, hin, if_true]
    exact steps_foreign foreign_wordEnd hend
  refine steps_ite (fun _ => steps_readOp (by exact hin) c) fun _ => ?_
  refine steps_ite (fun _ => ?_) fun _ => ?_
  · simp only [readClose, hfr]
    exact steps_readOp hin ')'
  refine steps_ite (fun _ => steps_readOp hin c) fun _ => ?_
  refine steps_ite (fun hc => ?_) fun _ => ?_
  · simp [hin] at hc
  refine steps_ite (fun _ => ?_) fun _ => ?_
  · by_cases hc : c = '~'
    · subst hc
      refine .inl ⟨['~'], fun _ => rfl, ⟨rfl, hfr, .inl rfl⟩, ?_⟩
      simp [owed, took, hm]
    · exact steps_foreign (foreign_active hc) rfl
  refine steps_ite (fun _ => .inl ⟨['='], fun _ => rfl, ⟨rfl, hfr, .inl rfl⟩, ?_⟩) fun _ => ?_
  · simp [owed, took, hm]
  refine .inl ⟨[c], spells_char c, ⟨rfl, hfr, .inl rfl⟩, ?_⟩
  simp [owed, took, hm]

theorem Literal.steps_readDouble (hl : Literal l) (hm : l.mode = .double) (c : Char) :
    Steps w l (l.readDouble c) := by
  have hin := hl.inWord
  have hfr := hl.frames
  unfold Lexer.readDouble
  refine steps_ite (fun _ => .inl ⟨[], spells_nil, ⟨rfl, hfr, .inl rfl⟩, ?_⟩) fun _ => ?_
  · simp [owed, took, hm]
  refine steps_ite (fun _ => .inl ⟨[], spells_nil, ⟨hin, hfr, by simp⟩, ?_⟩) fun _ => ?_
  · simp [owed, hm]
  refine steps_ite (fun _ => .inr (.inr ⟨rfl, .inl ⟨_, rfl⟩⟩)) fun _ => ?_
  refine steps_ite (fun _ => steps_foreign (foreign_expansion c) rfl) fun _ => ?_
  refine .inl ⟨[c], spells_char c, ⟨hin, hfr, by simp⟩, ?_⟩
  simp [owed, hm]

theorem Literal.steps_read (hw : 1 ≤ w ∧ w ≤ 2) (hl : Literal l) (c : Char) : Steps w l (l.read c) := by
  have hin := hl.inWord
  have hfr := hl.frames
  rcases hl.mode with hm | hm | hm | hm | hm
  · simp only [Lexer.read, hm]
    exact hl.steps_readWord hw.2 hm c
  · simp only [Lexer.read, hm]
    refine steps_ite (fun _ => .inl ⟨[], spells_nil, ⟨rfl, hfr, .inl rfl⟩, ?_⟩) fun _ => ?_
    · simp [owed, took, hm]
    · refine .inl ⟨[c], spells_char c, hl, ?_⟩
      simp
  · simp only [Lexer.read, hm]
    exact hl.steps_readDouble hm c
  · simp only [Lexer.read, hm]
    refine steps_ite (fun _ => .inl ⟨[], spells_nil, ⟨hin, hfr, .inl rfl⟩, ?_⟩) fun _ => ?_
    · simp [owed, hm]
    · refine .inl ⟨[c], spells_char c, ⟨rfl, hfr, .inl rfl⟩, ?_⟩
      have hone := hw.1
      simp only [owed, took, hm, length_singleton]
      omega
  · have hl' : Literal { l with mode := .double } := ⟨hin, hfr, by simp⟩
    simp only [Lexer.read, hm]
    refine .inl ?_
    by_cases hn : c = '\n'
    · exact ⟨[], by rw [if_pos hn]; exact spells_nil, hl', by simp [owed, hm]⟩
    by_cases hc : c = '$' ∨ c = '`' ∨ c = '"' ∨ c = '\\'
    · exact ⟨[c], by rw [if_neg hn, if_pos hc]; exact spells_char c, hl', by simp [owed, hm]⟩
    · refine ⟨['\\', c], ?_, hl', by simp [owed, hm]⟩
      rw [if_neg hn, if_neg hc]
      exact fun _ => rfl

theorem foreign_param (name : List Char) (q : Bool) : (Item.param name q).Foreign := by
  intro b c h
  cases h

theorem foreign_substOpen (q : Bool) : (Item.substOpen q).Foreign := by
  intro b c h
  cases h

theorem Expanding.departs (hl : Expanding l) (c : Char) : Departs (l.read c) := by
  rcases hl with ⟨q, hm⟩ | ⟨q, hm⟩ | ⟨q, s, hm⟩
  · simp only [Lexer.read, hm, readDollar]
    by_cases h1 : isNameStart c = true
    · rw [if_pos h1]
      exact .inr ⟨rfl, .inr (.inr ⟨_, _, rfl⟩)⟩
    rw [if_neg h1]
    by_cases h2 : c = '('
    · rw [if_pos h2]
      exact .inr ⟨rfl, .inr (.inl ⟨_, rfl⟩)⟩
    rw [if_neg h2]
    by_cases h3 : c = '\x7b'
    · rw [if_pos h3]
      exact .inl ⟨_, _, foreign_expansion c, rfl⟩
    rw [if_neg h3]
    by_cases h4 : isSpecialParam c = true
    · rw [if_pos h4]
      exact .inl ⟨_, _, foreign_param [c] q, rfl⟩
    rw [if_neg h4]
    exact .inl ⟨_, _, foreign_active (by decide), rfl⟩
  · simp only [Lexer.read, hm]
    by_cases h1 : c = '('
    · rw [if_pos h1]
      exact .inl ⟨_, _, foreign_expansion c, rfl⟩
    rw [if_neg h1]
    exact .inl ⟨_, _, foreign_substOpen q, rfl⟩
  · simp only [Lexer.read, hm]
    by_cases h1 : isNameChar c = true
    · rw [if_pos h1]
      exact .inr ⟨rfl, .inr (.inr ⟨_, _, rfl⟩)⟩
    rw [if_neg h1]
    exact .inl ⟨_, _, foreign_param s q, rfl⟩

variable {text : List Char} {F : List Item}

theorem Expanding.emits (hl : Expanding l)
    (hF : (l.after text).finish = some F) : ∃ i is, i.Foreign ∧ l.items text ++ F = i :: is := by
  induction text generalizing l with
  | nil =>
    simp only [after_nil, finish] at hF
    have hfr : l.frames = [] := by
      by_contra hfr
      simp [hfr] at hF
    simp only [hfr, ne_eq, not_true_eq_false, if_false] at hF
    rcases hl with ⟨q, hm⟩ | ⟨q, hm⟩ | ⟨q, s, hm⟩
    · cases q with
      | true => simp [hm] at hF
      | false =>
        simp only [hm, Option.some.injEq] at hF
        exact ⟨.active '$', [.wordEnd], foreign_active (by decide), by rw [← hF]; rfl⟩
    · simp [hm] at hF
    · cases q with
      | true => simp [hm] at hF
      | false =>
        simp only [hm, Option.some.injEq] at hF
        exact ⟨.param s false, [.wordEnd], foreign_param s false, by rw [← hF]; rfl⟩
  | cons c text ih =>
    rw [after_cons] at hF
    rcases hl.departs c with ⟨i, is, hi, his⟩ | ⟨hnil, hx⟩
    · exact ⟨i, _, hi, by rw [items_cons, his]; rfl⟩
    · obtain ⟨i, is, hi, his⟩ := ih hx hF
      exact ⟨i, is, hi, by rw [items_cons, hnil, nil_append, his]⟩

variable {X : List Char}

theorem foreign_ne {i : Item} (hi : i.Foreign) {b : Bool} {is Z : List Item}
    (hX : X ≠ []) : asWritten b (i :: is) ≠ X.map Item.char ++ Z := by
  obtain ⟨x, X, rfl⟩ := exists_cons_of_ne_nil hX
  intro h
  simp only [asWritten, map_cons, cons_append, List.cons.injEq] at h
  exact hi b x h.1

theorem suffix_of_spelled {cs X : List Char} {is Z : List Item} (hlen : cs.length ≤ X.length)
    (h : cs.map Item.char ++ is = X.map Item.char ++ Z) : ∃ X', X = cs ++ X' ∧ is = X'.map Item.char ++ Z := by
  induction cs generalizing X with
  | nil => exact ⟨X, rfl, h⟩
  | cons c cs ih =>
    cases X with
    | nil => simp at hlen
    | cons x X =>
      simp only [map_cons, cons_append, List.cons.injEq, Item.char.injEq] at h
      obtain ⟨X', hX, his⟩ := ih (by simpa using hlen) h.2
      exact ⟨X', by rw [hX, h.1]; rfl, his⟩

/-- The text of a field cannot make up for a character that is owed, if what comes behind the
field cannot. -/
theorem Literal.not_spelled (hw : 1 ≤ w ∧ w ≤ 2) {V X : List Char} {F R : List Item}
    (hend : ∀ (l : Lexer) (X : List Char), Literal l → owed w l.mode ≤ X.length → ' ' ∉ X →
      (l.after V).finish = some F → asWritten false (l.items V ++ F) ≠ X.map Item.char ++ Item.wordEnd :: R)
    (hl : Literal l) (t : List Char) (hlen : t.length + owed w l.mode ≤ X.length) (hX : ' ' ∉ X)
    (hF : (l.after (t ++ V)).finish = some F) :
    asWritten false (l.items (t ++ V) ++ F) ≠ X.map Item.char ++ Item.wordEnd :: R := by
  induction t generalizing l X with
  | nil => exact hend l X hl (by simpa using hlen) hX hF
  | cons c t ih =>
    have howed : 1 ≤ owed w l.mode := by
      unfold owed
      split
      · exact hw.1
      · exact Nat.le_succ 1
      · exact Nat.le_refl 1
    have hne : X ≠ [] := by
      rintro rfl
      simp at hlen
    rw [cons_append, after_cons] at hF
    rw [cons_append, items_cons]
    rcases hl.steps_read hw c with ⟨cs, hcs, hl', hlen'⟩ | ⟨i, is, hi, his⟩ | ⟨hnil, hx⟩
    · intro h
      rw [append_assoc, hcs] at h
      simp only [length_cons] at hlen
      obtain ⟨X', rfl, hrest⟩ := suffix_of_spelled (by omega) h
      rw [length_append] at hlen
      exact ih hl' (by omega) (fun hmem => hX (mem_append_right _ hmem)) hF hrest
    · rw [his]
      exact foreign_ne hi hne
    · obtain ⟨i, is, hi, his⟩ := hx.emits hF
      rw [hnil, nil_append, his]
      exact foreign_ne hi hne

inductive Closing : List Char → Prop
  | nil : Closing []
  | blank (W : List Char) : Closing (' ' :: W)

theorem Literal.closes_word (hl : Literal l) (hm : l.mode = .word) {V : List Char} (hV : Closing V)
    (hF : (l.after V).finish = some F) : ∃ is, l.items V ++ F = .wordEnd :: is := by
  have hend : l.endWord = [.wordEnd] := by simp only [endWord, hl.inWord, if_true]
  cases hV with
  | nil =>
    simp only [after_nil, finish, hl.frames, hm, hend] at hF
    exact ⟨[], by simpa using hF.symm⟩
  | blank W =>
    have hread : (l.read ' ').2 = [.wordEnd] := by
      simp only [Lexer.read, hm]
      exact hend
    exact ⟨_, by rw [items_cons, hread]; rfl⟩

theorem closes_quotation (hm : l.mode = .single ∨ l.mode = .double) {V : List Char} (hV : Closing V)
    (hF : (l.after V).finish = some F) : ∃ is, l.items V ++ F = .char ' ' :: is := by
  cases hV with
  | nil => rcases hm with hm | hm <;> simp [finish, hm] at hF
  | blank W =>
    rcases hm with hm | hm
    · exact ⟨_, by simp only [items_cons, Lexer.read, hm]; rfl⟩
    · exact ⟨_, by simp only [items_cons, Lexer.read, hm]; rfl⟩

theorem blank_ne {is R : List Item} (hX : ' ' ∉ X) :
    asWritten false (.char ' ' :: is) ≠ X.map Item.char ++ Item.wordEnd :: R := by
  intro h
  cases X with
  | nil => cases h
  | cons x X =>
    simp only [asWritten, Item.settle, map_cons, cons_append, List.cons.injEq,
      Item.char.injEq] at h
    exact hX (h.1 ▸ mem_cons_self)

theorem char_ne {is R : List Item}
    (hrest : ∀ X', X = c :: X' → asWritten false is ≠ X'.map Item.char ++ Item.wordEnd :: R) :
    asWritten false (.char c :: is) ≠ X.map Item.char ++ Item.wordEnd :: R := by
  intro h
  cases X with
  | nil => cases h
  | cons x X =>
    simp only [asWritten, Item.settle, Item.isBreak, map_cons, cons_append, List.cons.injEq,
      Item.char.injEq] at h
    exact hrest X (by rw [h.1]) h.2

theorem Literal.blank_end (hl : Literal l) {X W : List Char} {F R : List Item}
    (howed : owed 1 l.mode ≤ X.length) (hX : ' ' ∉ X) (hF : (l.after (' ' :: W)).finish = some F) :
    asWritten false (l.items (' ' :: W) ++ F) ≠ X.map Item.char ++ Item.wordEnd :: R := by
  rcases hl.mode with hm | hm | hm | hm | hm
  · obtain ⟨is, his⟩ := hl.closes_word hm (.blank W) hF
    rw [his]
    refine foreign_ne foreign_wordEnd ?_
    rintro rfl
    simp [owed, hm] at howed
  · obtain ⟨is, his⟩ := closes_quotation (.inl hm) (.blank W) hF
    rw [his]
    exact blank_ne hX
  · obtain ⟨is, his⟩ := closes_quotation (.inr hm) (.blank W) hF
    rw [his]
    exact blank_ne hX
  · have hread : (l.read ' ').2 = [.char ' '] := by
      simp only [Lexer.read, hm]
      rfl
    rw [items_cons, hread]
    exact blank_ne hX
  · have hread : (l.read ' ').2 = [.char '\\', .char ' '] := by
      simp only [Lexer.read, hm]
      rfl
    rw [items_cons, hread]
    refine char_ne ?_
    rintro X' rfl
    exact blank_ne fun hmem => hX (mem_cons_of_mem _ hmem)

theorem Literal.quote_end (hl : Literal l) {X V : List Char} {F R : List Item}
    (howed : owed 2 l.mode ≤ X.length) (hX : ' ' ∉ X) (hV : Closing V)
    (hF : (l.after ('\'' :: V)).finish = some F) :
    asWritten false (l.items ('\'' :: V) ++ F) ≠ X.map Item.char ++ Item.wordEnd :: R := by
  have hin := hl.inWord
  have hfr := hl.frames
  have htail : ∀ {c : Char} {X' : List Char}, X = c :: X' → ' ' ∉ X' :=
    fun h hmem => hX (h ▸ mem_cons_of_mem _ hmem)
  rw [after_cons] at hF
  rw [items_cons, append_assoc]
  rcases hl.mode with hm | hm | hm | hm | hm
  · have hread : l.read '\'' = ({ l.took false with mode := .single }, []) := by
      simp only [Lexer.read, hm]
      rfl
    rw [hread] at hF ⊢
    obtain ⟨is, his⟩ := closes_quotation (.inl rfl) hV hF
    rw [nil_append, his]
    exact blank_ne hX
  · have hread : l.read '\'' = (l.took false, []) := by simp only [Lexer.read, hm, if_true]
    rw [hread] at hF ⊢
    have hl' : Literal (l.took false) := ⟨rfl, hfr, .inl rfl⟩
    obtain ⟨is, his⟩ := hl'.closes_word rfl hV hF
    rw [nil_append, his]
    refine foreign_ne foreign_wordEnd ?_
    rintro rfl
    simp [owed, hm] at howed
  · have hread : l.read '\'' = ({ l with mode := .double }, [.char '\'']) := by
      simp only [Lexer.read, hm]
      rfl
    rw [hread] at hF ⊢
    obtain ⟨is, his⟩ := closes_quotation (.inr rfl) hV hF
    simp only [cons_append, nil_append, his]
    refine char_ne ?_
    rintro X' rfl
    exact blank_ne (htail rfl)
  · have hread : l.read '\'' = (l.took false, [.char '\'']) := by
      simp only [Lexer.read, hm]
      rfl
    rw [hread] at hF ⊢
    have hl' : Literal (l.took false) := ⟨rfl, hfr, .inl rfl⟩
    obtain ⟨is, his⟩ := hl'.closes_word rfl hV hF
    simp only [cons_append, nil_append, his]
    refine char_ne ?_
    rintro X' rfl
    refine foreign_ne foreign_wordEnd ?_
    rintro rfl
    simp [owed, hm] at howed
  · have hread : l.read '\'' = ({ l with mode := .double }, [.char '\\', .char '\'']) := by
      simp only [Lexer.read, hm]
      rfl
    rw [hread] at hF ⊢
    obtain ⟨is, his⟩ := closes_quotation (.inr rfl) hV hF
    simp only [cons_append, nil_append, his]
    refine char_ne ?_
    rintro X' rfl
    refine char_ne ?_
    rintro X'' rfl
    exact blank_ne fun hmem => htail rfl (mem_cons_of_mem _ hmem)

theorem isPlain_iff : isPlain c = true ↔
    c ≠ '\'' ∧ c ≠ '"' ∧ c ≠ '\\' ∧ c ≠ '$' ∧ c ≠ '`' ∧ c ≠ '(' ∧ c ≠ ')' ∧ c ≠ ' ' ∧ c ≠ '\t' ∧
      c ≠ ';' ∧ c ≠ '&' ∧ c ≠ '|' ∧ c ≠ '<' ∧ c ≠ '>' ∧ c ≠ '\n' ∧ c ≠ '*' ∧ c ≠ '?' ∧ c ≠ '[' := by
  simp [isPlain]

theorem Literal.read_plain (hl : Literal l) (hm : l.mode = .word) (hc : isPlain c = true) :
    Spells (l.read c).2 [c] ∧ Literal (l.read c).1 ∧ (l.read c).1.mode = .word := by
  have hin := hl.inWord
  obtain ⟨h1, h2, h3, h4, h5, h6, h7, h8, h9, h10, h11, h12, h13, h14, h15, h16, h17, h18⟩ :=
    isPlain_iff.mp hc
  simp only [Lexer.read, hm, Lexer.readWord, h1, h2, h3, h4, h5, h6, h7, h8, h9, h10, h11, h12, h13,
    h14, h15, h16, h17, h18, hin, if_false, false_or, Bool.not_true, Bool.false_eq_true, and_false]
  by_cases htilde : c = '~'
  · subst htilde
    exact ⟨fun _ => rfl, ⟨rfl, hl.frames, .inl rfl⟩, rfl⟩
  · rw [if_neg htilde]
    by_cases hassign : c = '=' ∧ l.assignable = true
    · rw [if_pos hassign]
      obtain ⟨rfl, _⟩ := hassign
      exact ⟨fun _ => rfl, ⟨rfl, hl.frames, .inl rfl⟩, rfl⟩
    · rw [if_neg hassign]
      exact ⟨spells_char c, ⟨rfl, hl.frames, .inl rfl⟩, rfl⟩

theorem Literal.read_plain_text (hl : Literal l) (hm : l.mode = .word) (htext : ∀ c ∈ text, isPlain c = true) :
    Spells (l.items text) text ∧ Literal (l.after text) ∧ (l.after text).mode = .word := by
  induction text generalizing l with
  | nil => exact ⟨spells_nil, hl, hm⟩
  | cons c text ih =>
    obtain ⟨hspells, hl', hm'⟩ := hl.read_plain hm (htext c mem_cons_self)
    obtain ⟨hspells', hl'', hm''⟩ := ih hl' hm' fun d hd => htext d (mem_cons_of_mem _ hd)
    refine ⟨fun rest => ?_, hl'', hm''⟩
    rw [items_cons, append_assoc, hspells, hspells']
    rfl

theorem start_read_plain (hc : isPlain c = true) (hhash : c ≠ '#') (htilde : c ≠ '~') :
    (start.read c).2 = [.char c] ∧ Literal (start.read c).1 ∧ (start.read c).1.mode = .word := by
  obtain ⟨h1, h2, h3, h4, h5, h6, h7, h8, h9, h10, h11, h12, h13, h14, h15, h16, h17, h18⟩ :=
    isPlain_iff.mp hc
  have hread : start.read c = (start.took (isNameStart c), [.char c]) := by
    simp [Lexer.read, Lexer.readWord, start, h1, h2, h3, h4, h5, h6, h7, h8, h9, h10, h11, h12, h13,
      h14, h15, h16, h17, h18, hhash, htilde]
  rw [hread]
  exact ⟨rfl, ⟨rfl, rfl, .inl rfl⟩, rfl⟩

theorem start_read_text (h : Plain (c :: text)) :
    (∀ rest, asWritten true (start.items (c :: text) ++ rest) =
      (c :: text).map Item.char ++ asWritten false rest) ∧
    Literal (start.after (c :: text)) ∧ (start.after (c :: text)).mode = .word := by
  obtain ⟨hhash, htilde, hplain⟩ := h
  obtain ⟨hitems, hl, hm⟩ := start_read_plain (hplain c mem_cons_self)
    (fun h => hhash (by rw [h]; rfl)) fun h => htilde (by rw [h]; rfl)
  obtain ⟨hspells, hl', hm'⟩ := hl.read_plain_text hm fun d hd => hplain d (mem_cons_of_mem _ hd)
  refine ⟨fun rest => ?_, hl', hm'⟩
  rw [items_cons, hitems]
  simp only [cons_append, nil_append, asWritten, Item.settle, Item.isBreak, hspells rest,
    map_cons]

/-- A character that is not plain opens a quotation, escapes, or is no character. -/
def Strays (r : Lexer × List Item) : Prop :=
  (r.2 = [] ∧ Literal r.1 ∧ owed 1 r.1.mode = 1) ∨ Departs r

theorem cases_of_special (hc : isPlain c = false) :
    c = '\'' ∨ c = '"' ∨ c = '\\' ∨ c = '$' ∨ c = '`' ∨ c = '(' ∨ c = ')' ∨ c = ' ' ∨ c = '\t' ∨
      c = ';' ∨ c = '&' ∨ c = '|' ∨ c = '<' ∨ c = '>' ∨ c = '\n' ∨ c = '*' ∨ c = '?' ∨ c = '[' := by
  by_contra hall
  simp only [not_or] at hall
  have hplain := isPlain_iff.mpr hall
  rw [hc] at hplain
  cases hplain

theorem departs_readOp (l' : Lexer) (d : Char) : Departs (l'.readOp d) := by
  by_cases hin : l'.inWord = true
  · refine .inl ⟨.wordEnd, [.op d (l'.lastOp.any fun e => joins e d)], foreign_wordEnd, ?_⟩
    simp only [readOp, endWord, hin, if_true]
    rfl
  · refine .inl ⟨.op d (l'.lastOp.any fun e => joins e d), [], ?_, ?_⟩
    · intro b c h
      cases h
    · simp only [readOp, endWord, hin]
      rfl

theorem strays_active (l : Lexer) (h : c = ';' ∨ c = '&' ∨ c = '|' ∨ c = '<' ∨ c = '>' ∨ c = '\n' ∨ c = '*' ∨
    c = '?' ∨ c = '[') : Strays (l.readWord c) := by
  rcases h with rfl | rfl | rfl | rfl | rfl | rfl | rfl | rfl | rfl
  · exact .inr (departs_readOp _ ';')
  · exact .inr (departs_readOp _ '&')
  · exact .inr (departs_readOp _ '|')
  · exact .inr (departs_readOp _ '<')
  · exact .inr (departs_readOp _ '>')
  · exact .inr (departs_readOp _ '\n')
  · exact .inr (.inl ⟨_, _, foreign_active (by decide), rfl⟩)
  · exact .inr (.inl ⟨_, _, foreign_active (by decide), rfl⟩)
  · exact .inr (.inl ⟨_, _, foreign_active (by decide), rfl⟩)

theorem Literal.read_special (hl : Literal l) (hm : l.mode = .word) (hc : isPlain c = false) :
    Strays (l.read c) := by
  have hfr := hl.frames
  have hend : l.endWord = [.wordEnd] := by simp only [endWord, hl.inWord, if_true]
  simp only [Lexer.read, hm]
  rcases cases_of_special hc with rfl | rfl | rfl | rfl | rfl | rfl | rfl | rfl | rfl | h
  · exact .inl ⟨rfl, ⟨rfl, hfr, .inr (.inl rfl)⟩, rfl⟩
  · exact .inl ⟨rfl, ⟨rfl, hfr, .inr (.inr (.inl rfl))⟩, rfl⟩
  · exact .inl ⟨rfl, ⟨hl.inWord, hfr, .inr (.inr (.inr (.inl rfl)))⟩, rfl⟩
  · exact .inr (.inr ⟨rfl, .inl ⟨_, rfl⟩⟩)
  · exact .inr (.inl ⟨_, _, foreign_expansion _, rfl⟩)
  · exact .inr (departs_readOp _ '(')
  · have hread : l.readWord ')' = l.readOp ')' := by
      change l.readClose = _
      simp only [readClose, hfr]
    rw [hread]
    exact .inr (departs_readOp _ ')')
  · exact .inr (.inl ⟨_, _, foreign_wordEnd, hend⟩)
  · exact .inr (.inl ⟨_, _, foreign_wordEnd, hend⟩)
  · exact strays_active _ h

theorem start_read_special (hc : isPlain c = false) (hblank : c ≠ ' ') (htab : c ≠ '\t')
    (hescape : c ≠ '\\') : Strays (start.read c) := by
  rcases cases_of_special hc with rfl | rfl | rfl | rfl | rfl | rfl | rfl | rfl | rfl | h
  · exact .inl ⟨rfl, ⟨rfl, rfl, .inr (.inl rfl)⟩, rfl⟩
  · exact .inl ⟨rfl, ⟨rfl, rfl, .inr (.inr (.inl rfl))⟩, rfl⟩
  · exact absurd rfl hescape
  · exact .inr (.inr ⟨rfl, .inl ⟨_, rfl⟩⟩)
  · exact .inr (.inl ⟨_, _, foreign_expansion _, rfl⟩)
  · exact .inr (departs_readOp _ '(')
  · exact .inr (departs_readOp _ ')')
  · exact absurd rfl hblank
  · exact absurd rfl htab
  · exact strays_active _ h

theorem comment_emits (hm : l.mode = .comment) (hF : (l.after text).finish = some F) (hfr : l.frames = []) :
    l.items text ++ F = [] ∨ ∃ i is, i.Foreign ∧ l.items text ++ F = i :: is := by
  induction text with
  | nil =>
    simp only [after_nil, finish, hfr, hm, ne_eq, not_true_eq_false, if_false, Option.some.injEq] at hF
    exact .inl (by rw [← hF]; rfl)
  | cons c text ih =>
    by_cases hc : c = '\n'
    · have hread : l.read c = l.readOp c := by simp only [Lexer.read, hm, hc, if_true]
      rcases departs_readOp l c with ⟨i, is, hi, his⟩ | ⟨hnil, _⟩
      · exact .inr ⟨i, _, hi, by rw [items_cons, hread, his]; rfl⟩
      · simp [readOp] at hnil
    · have hread : l.read c = (l, []) := by simp only [Lexer.read, hm, hc, if_false]
      rw [after_cons, hread] at hF
      rw [items_cons, hread, nil_append]
      exact ih hF

theorem Literal.read_blank (hl : Literal l) (hm : l.mode = .word) : l.read ' ' = (start, [.wordEnd]) := by
  obtain ⟨mode, inWord, assignable, frames, lastOp⟩ := l
  obtain ⟨hin, hfr, _⟩ := hl
  subst hm
  subst hin
  subst hfr
  rfl

end Step

end Lexer

open Lexer

/-- A piece of a command line that is read from the start of a word to the start of another. -/
structure Reads (text : List Char) (items : List Item) : Prop where
  after : start.after text = start
  items : ∀ rest, asWritten true (start.items text ++ rest) = items ++ asWritten true rest

section Pieces

variable {text text' W : List Char} {items items' R : List Item}

theorem Reads.readAs (h : Reads text items) (W : List Char) :
    readAs (text ++ W) = (readAs W).map (items ++ ·) := by
  simp only [Shell.readAs, lex, after_append, h.after, items_append, Option.map_map]
  congr 1
  funext F
  simp only [Function.comp, append_assoc, h.items]

theorem Reads.iff (h : Reads text items) :
    Shell.readAs (text ++ W) = some (items ++ R) ↔ Shell.readAs W = some R := by
  rw [h.readAs]
  constructor
  · intro hsome
    obtain ⟨R', hR', heq⟩ := map_eq_some_iff.mp hsome
    rw [hR', append_cancel_left heq]
  · intro hsome
    rw [hsome]
    rfl

theorem Reads.append (h : Reads text items) (h' : Reads text' items') :
    Reads (text ++ text') (items ++ items') where
  after := by rw [after_append, h.after, h'.after]
  items rest := by rw [items_append, h.after, append_assoc, h.items, h'.items, append_assoc]

theorem reads_of (hafter : start.after text = start) (hitems : asWritten true (start.items text) = items)
    (hlast : (start.items text).getLast?.any Item.isBreak = true) : Reads text items where
  after := hafter
  items rest := by
    obtain ⟨i, hi, hbreak⟩ := (Option.any_eq_true _ _).mp hlast
    obtain ⟨xs, hxs⟩ := getLast?_eq_some_iff.mp hi
    rw [hxs, append_assoc, singleton_append, asWritten_append_of_break hbreak, ← hxs, hitems]

variable {field : List Char}

theorem reads_bare (hne : field ≠ []) (h : Plain field) :
    Reads (field ++ [' ']) (field.map Item.char ++ [Item.wordEnd]) := by
  obtain ⟨c, cs, rfl⟩ := exists_cons_of_ne_nil hne
  obtain ⟨hitems, hl, hm⟩ := start_read_text h
  have hblank := hl.read_blank hm
  constructor
  · rw [after_append, after_cons, hblank]
    rfl
  · intro rest
    rw [items_append, append_assoc, hitems, items_cons, hblank]
    simp [asWritten, Item.settle, Item.isBreak]

def quoting : Lexer := { start.took false with mode := .single }

theorem start_read_quote : start.read '\'' = (quoting, []) := rfl

theorem asWritten_map_char (b : Bool) (cs : List Char) (is : List Item) :
    asWritten b (cs.map Item.char ++ Item.wordEnd :: is) = cs.map Item.char ++ Item.wordEnd ::
    asWritten true is := by
  cases cs with
  | nil => rfl
  | cons c cs =>
    rw [asWritten_chars b (c :: cs) _ (by simp)]
    rfl

theorem quoted_items (h : '\'' ∉ field) (V : List Char) :
    start.items ('\'' :: (field ++ '\'' :: V)) = field.map Item.char ++ (start.took false).items V ∧
      start.after ('\'' :: (field ++ '\'' :: V)) = (start.took false).after V := by
  obtain ⟨hafter, hitems⟩ := items_single (l := quoting) rfl h
  have hclose : quoting.read '\'' = (start.took false, []) := rfl
  constructor
  · rw [items_cons, start_read_quote, nil_append, items_append, hitems, hafter, items_cons, hclose]
    rfl
  · rw [after_cons, start_read_quote, after_append, hafter, after_cons, hclose]

theorem reads_quoted (h : '\'' ∉ field) :
    Reads ('\'' :: (field ++ ['\'', ' '])) (field.map Item.char ++ [Item.wordEnd]) := by
  obtain ⟨hitems, hafter⟩ := quoted_items h [' ']
  constructor
  · rw [hafter]
    rfl
  · intro rest
    have hblank : (start.took false).items [' '] = [.wordEnd] := rfl
    rw [hitems, hblank, append_assoc, singleton_append, asWritten_map_char true field rest,
      append_assoc]
    rfl

theorem asWritten_false_of_true {is Z : List Item} {c : Char} (h : asWritten true is = .char c :: Z) :
    asWritten false is = .char c :: Z := by
  cases is with
  | nil => cases h
  | cons i is =>
    simp only [asWritten, List.cons.injEq] at h ⊢
    refine ⟨?_, h.2⟩
    cases i with
    | active d => simp [Item.settle] at h
    | _ => exact h.1

theorem quoted_not_read {field V : List Char} (hquote : '\'' ∈ field) (hblank : ' ' ∉ field)
    (hV : Closing V) :
    readAs ('\'' :: (field ++ '\'' :: V)) ≠ some (field.map Item.char ++ Item.wordEnd :: R) := by
  obtain ⟨a, t, rfl, ha⟩ := eq_append_cons_of_mem hquote
  obtain ⟨hitems, hafter⟩ := quoted_items ha (t ++ '\'' :: V)
  have hl : Literal (start.took false) := ⟨rfl, rfl, .inl rfl⟩
  intro h
  obtain ⟨items, hlex, heq⟩ := map_eq_some_iff.mp h
  obtain ⟨F, hF, rfl⟩ := map_eq_some_iff.mp hlex
  rw [append_assoc, cons_append] at heq hF
  rw [hafter] at hF
  rw [hitems, map_append, map_cons, append_assoc, append_assoc] at heq
  have hrest : asWritten false ((start.took false).items (t ++ '\'' :: V) ++ F) =
      ('\'' :: t).map Item.char ++ Item.wordEnd :: R := by
    cases a with
    | nil => exact asWritten_false_of_true heq
    | cons c a =>
      rw [asWritten_chars true (c :: a) _ (by simp)] at heq
      exact append_cancel_left heq
  refine hl.not_spelled (w := 2) (by decide) ?_ t ?_ ?_ hF hrest
  · intro l X hl howed hX hF
    exact hl.quote_end howed hX hV hF
  · simp [owed, took]
  · intro hmem
    exact hblank (mem_append_right a hmem)

theorem quoted_iff (hblank : ' ' ∉ field) :
    readAs ('\'' :: (field ++ '\'' :: ' ' :: W)) = some (field.map Item.char ++ Item.wordEnd :: R) ↔
      '\'' ∉ field ∧ readAs W = some R := by
  by_cases hquote : '\'' ∈ field
  · simp only [hquote, not_true_eq_false, false_and, iff_false]
    exact quoted_not_read hquote hblank (.blank W)
  · have htext : '\'' :: (field ++ '\'' :: ' ' :: W) = '\'' :: (field ++ ['\'', ' ']) ++ W := by simp
    have hitems : field.map Item.char ++ Item.wordEnd :: R = field.map Item.char ++ [Item.wordEnd] ++ R := by simp
    rw [htext, hitems, (reads_quoted hquote).iff]
    simp [hquote]

theorem quoted_last_iff (hblank : ' ' ∉ field) :
    readAs ('\'' :: (field ++ ['\''])) = some (field.map Item.char ++ [Item.wordEnd]) ↔ '\'' ∉ field := by
  constructor
  · intro h hquote
    exact quoted_not_read hquote hblank .nil h
  · intro hquote
    obtain ⟨hitems, hafter⟩ := quoted_items hquote []
    have hfinish : ((start.took false).after []).finish = some [.wordEnd] := rfl
    simp only [readAs, lex, hitems, hafter, hfinish, map_some, items_nil, append_nil]
    rw [asWritten_map_char true field []]
    rfl

theorem exists_first_special {text : List Char} (h : ¬ ∀ c ∈ text, isPlain c = true) :
    ∃ a c t, text = a ++ c :: t ∧ (∀ d ∈ a, isPlain d = true) ∧ isPlain c = false := by
  induction text with
  | nil => simp at h
  | cons c text ih =>
    cases hc : isPlain c with
    | false => exact ⟨[], c, text, rfl, by simp, hc⟩
    | true =>
      have hrest : ¬ ∀ c ∈ text, isPlain c = true := by
        intro hall
        refine h fun d hd => ?_
        rcases mem_cons.mp hd with rfl | hd
        · exact hc
        · exact hall d hd
      obtain ⟨a, d, t, rfl, ha, hd⟩ := ih hrest
      refine ⟨c :: a, d, t, rfl, ?_, hd⟩
      intro e he
      rcases mem_cons.mp he with rfl | he
      · exact hc
      · exact ha e he

theorem strays_ne {l : Lexer} {c : Char} {t : List Char} {F : List Item} (hstrays : Strays (l.read c))
    (hblank : ' ' ∉ c :: t) (hF : (l.after (c :: t ++ ' ' :: W)).finish = some F) :
    asWritten false (l.items (c :: t ++ ' ' :: W) ++ F) ≠ (c :: t).map Item.char ++ Item.wordEnd :: R := by
  rw [cons_append, after_cons] at hF
  rw [cons_append, items_cons]
  rcases hstrays with ⟨hnil, hl, howed⟩ | ⟨i, is, hi, his⟩ | ⟨hnil, hx⟩
  · rw [hnil, nil_append]
    refine hl.not_spelled (w := 1) (by decide) ?_ t ?_ hblank hF
    · intro l X hl howed hX hF
      exact hl.blank_end howed hX hF
    · rw [howed]
      simp
  · rw [his]
    exact foreign_ne hi (by simp)
  · obtain ⟨i, is, hi, his⟩ := hx.emits hF
    rw [hnil, nil_append, his]
    exact foreign_ne hi (by simp)

theorem escape_ne {t : List Char} {F : List Item} (hblank : ' ' ∉ t) (hline : '\n' ∉ t)
    (hF : (start.after ('\\' :: t ++ ' ' :: W)).finish = some F) :
    asWritten false (start.items ('\\' :: t ++ ' ' :: W) ++ F) ≠
      ('\\' :: t).map Item.char ++ Item.wordEnd :: R := by
  have hread : start.read '\\' = ({ start with mode := .escape }, []) := rfl
  rw [cons_append, after_cons, hread] at hF
  rw [cons_append, items_cons, hread, nil_append]
  cases t with
  | nil =>
    have hesc : ({ start with mode := .escape } : Lexer).read ' ' = (start.took false, [.char ' ']) := rfl
    rw [nil_append, items_cons, hesc]
    exact blank_ne (by decide)
  | cons d t =>
    have hd : d ≠ '\n' := fun h => hline (h ▸ mem_cons_self)
    have hesc : ({ start with mode := .escape } : Lexer).read d = (start.took false, [.char d]) := by
      simp only [Lexer.read, hd, if_false]
      rfl
    rw [cons_append, after_cons, hesc] at hF
    rw [cons_append, items_cons, hesc]
    have hl : Literal (start.took false) := ⟨rfl, rfl, .inl rfl⟩
    refine char_ne ?_
    intro X' hX'
    obtain ⟨rfl, rfl⟩ := List.cons.inj hX'
    refine hl.not_spelled (w := 1) (by decide) ?_ t ?_ hblank hF
    · intro l X hl howed hX hF
      exact hl.blank_end howed hX hF
    · simp [owed, took]

theorem bare_not_read (hne : field ≠ [])
    (hblank : ∀ c ∈ field, c ≠ ' ' ∧ c ≠ '\t' ∧ c ≠ '\n') (h : ¬ Plain field) :
    readAs (field ++ ' ' :: W) ≠ some (field.map Item.char ++ Item.wordEnd :: R) := by
  have hspace : ∀ {t : List Char}, (∀ c ∈ t, c ∈ field) → ' ' ∉ t :=
    fun ht hmem => (hblank _ (ht _ hmem)).1 rfl
  obtain ⟨c, t, rfl⟩ := exists_cons_of_ne_nil hne
  intro hread
  obtain ⟨items, hlex, heq⟩ := map_eq_some_iff.mp hread
  obtain ⟨F, hF, rfl⟩ := map_eq_some_iff.mp hlex
  have heq' := asWritten_false_of_true heq
  obtain ⟨hcblank, hctab, _⟩ := hblank c mem_cons_self
  by_cases hhash : c = '#'
  · subst hhash
    have hcomment : start.read '#' = ({ start with mode := .comment }, []) := rfl
    rw [cons_append, after_cons, hcomment] at hF
    rw [cons_append, items_cons, hcomment, nil_append] at heq
    rcases comment_emits rfl hF rfl with hnil | ⟨i, is, hi, his⟩
    · rw [hnil] at heq
      cases heq
    · rw [his] at heq
      exact foreign_ne hi (by simp) heq
  by_cases htilde : c = '~'
  · subst htilde
    have hactive : start.read '~' = (start.took false, [.active '~']) := rfl
    rw [cons_append, items_cons, hactive] at heq
    cases heq
  by_cases hplain : isPlain c = true
  · -- the first character is read as itself, so the one that is not comes behind it
    have hrest : ¬ ∀ d ∈ t, isPlain d = true := by
      intro hall
      refine h ⟨by simpa using hhash, by simpa using htilde, ?_⟩
      intro d hd
      rcases mem_cons.mp hd with rfl | hd
      · exact hplain
      · exact hall d hd
    obtain ⟨a, d, t, rfl, ha, hd⟩ := exists_first_special hrest
    have hfirst : Plain (c :: a) := by
      refine ⟨by simpa using hhash, by simpa using htilde, ?_⟩
      intro e he
      rcases mem_cons.mp he with rfl | he
      · exact hplain
      · exact ha e he
    obtain ⟨hitems, hl, hm⟩ := start_read_text hfirst
    have htext : c :: (a ++ d :: t) ++ ' ' :: W = (c :: a) ++ (d :: t ++ ' ' :: W) := by simp
    rw [htext, after_append] at hF
    rw [htext, items_append, append_assoc, hitems] at heq
    have hsplit : (c :: (a ++ d :: t)).map Item.char ++ Item.wordEnd :: R =
        (c :: a).map Item.char ++ ((d :: t).map Item.char ++ Item.wordEnd :: R) := by simp
    rw [hsplit] at heq
    refine strays_ne (hl.read_special hm hd) ?_ hF (append_cancel_left heq)
    refine hspace fun e he => ?_
    exact mem_cons_of_mem _ (mem_append_right a he)
  · have hspecial : isPlain c = false := by simpa using hplain
    by_cases hescape : c = '\\'
    · subst hescape
      refine escape_ne ?_ ?_ hF heq'
      · exact hspace fun e he => mem_cons_of_mem _ he
      · exact fun hmem => (hblank _ (mem_cons_of_mem _ hmem)).2.2 rfl
    · exact strays_ne (start_read_special hspecial hcblank hctab hescape) (hspace fun _ he => he) hF heq'

theorem bare_iff (hne : field ≠ []) (hblank : ∀ c ∈ field, c ≠ ' ' ∧ c ≠ '\t' ∧ c ≠ '\n') :
    readAs (field ++ ' ' :: W) = some (field.map Item.char ++ Item.wordEnd :: R) ↔
      Plain field ∧ readAs W = some R := by
  by_cases hplain : Plain field
  · have htext : field ++ ' ' :: W = field ++ [' '] ++ W := by simp
    have hitems : field.map Item.char ++ Item.wordEnd :: R = field.map Item.char ++ [Item.wordEnd] ++ R := by simp
    rw [htext, hitems, (reads_bare hne hplain).iff]
    simp [hplain]
  · simp only [hplain, false_and, iff_false]
    exact bare_not_read hne hblank hplain

end Pieces

/-- A piece of a command line, with the blank behind it. -/
inductive Piece where
  | fixed (text : List Char) (items : List Item)
  | quoted (field : List Char)
  | bare (field : List Char)

namespace Piece

def text : Piece → List Char
  | .fixed text _ => text
  | .quoted field => '\'' :: (field ++ ['\'', ' '])
  | .bare field => field ++ [' ']

def items : Piece → List Item
  | .fixed _ items => items
  | .quoted field => literal field ++ [Item.wordEnd]
  | .bare field => literal field ++ [Item.wordEnd]

def WellFormed : Piece → Prop
  | .fixed text items => Reads text items
  | .quoted field => ' ' ∉ field
  | .bare field => field ≠ [] ∧ ∀ c ∈ field, c ≠ ' ' ∧ c ≠ '\t' ∧ c ≠ '\n'

def Harmless : Piece → Prop
  | .fixed _ _ => True
  | .quoted field => '\'' ∉ field
  | .bare field => Plain field

@[simp] theorem harmless_quoted (field : List Char) : (Piece.quoted field).Harmless ↔ '\'' ∉ field := .rfl

@[simp] theorem harmless_bare (field : List Char) : (Piece.bare field).Harmless ↔ Plain field := .rfl

theorem readAs_iff {p : Piece} (hp : p.WellFormed) (W : List Char) (R : List Item) :
    readAs (p.text ++ W) = some (p.items ++ R) ↔ p.Harmless ∧ readAs W = some R := by
  cases p with
  | fixed text items => simpa [Piece.text, Piece.items, Harmless] using hp.iff
  | quoted field => simpa [Piece.text, Piece.items, Harmless, literal] using quoted_iff hp
  | bare field => simpa [Piece.text, Piece.items, Harmless, literal] using bare_iff hp.1 hp.2

end Piece

theorem readAs_pieces_iff {pieces : List Piece} (hpieces : ∀ p ∈ pieces, p.WellFormed) (last : List Char)
    (R : List Item) :
    readAs (pieces.flatMap Piece.text ++ last) = some (pieces.flatMap Piece.items ++ R) ↔
      (∀ p ∈ pieces, p.Harmless) ∧ readAs last = some R := by
  induction pieces with
  | nil => simp
  | cons p pieces ih =>
    have hp := hpieces p mem_cons_self
    have ih' := ih fun q hq => hpieces q (mem_cons_of_mem _ hq)
    rw [flatMap_cons, flatMap_cons, append_assoc, append_assoc,
      Piece.readAs_iff hp, ih', forall_mem_cons, and_assoc]

end WslPlus.Shell
