import Workplan.Proofs.Rule.Nesting
import Workplan.Proofs.Rule.Quotation
import Workplan.Rule.Program

/-!
# Displayed values as rules

A value without maps is displayed as a rule: constants are shown as they are written, lists in
brackets. The text of such a rule spells the symbols of the expression that denotes the value, so
it is read as that expression, unless a text in it has a character whose escape rules do not know,
or its lists nest deeper than expressions may.
-/

namespace Workplan
namespace Rule

namespace Value

/-- A value made of nil, booleans, integers, texts and lists, without maps. -/
inductive Plain : Value → Prop where
  | nil : Plain .nil
  | bool (value : Bool) : Plain (.bool value)
  | int (value : Int64) : Plain (.int value)
  | str (value : String) : Plain (.str value)
  | list {items : List Value} : (∀ v ∈ items, Plain v) → Plain (.list items)

mutual

/-- How many lists deep the innermost list of a value lies, itself included. -/
def nesting : Value → Nat
  | list items => nestingAll items + 1
  | _ => 0

def nestingAll : List Value → Nat
  | [] => 0
  | v :: rest => max (nesting v) (nestingAll rest)

end

mutual

def texts : Value → List String
  | str s => [s]
  | list items => textsAll items
  | map entries => entries.toList.flatMap fun entry => [entry.1, entry.2]
  | _ => []

def textsAll : List Value → List String
  | [] => []
  | v :: rest => texts v ++ textsAll rest

end

/-- Rules know the escapes of all characters in the texts of a value. -/
def Expressible (v : Value) : Prop :=
  ∀ text ∈ v.texts, ∀ c ∈ text.toList, ¬ Text.Inexpressible c

instance (v : Value) : Decidable v.Expressible :=
  decidable_of_iff (v.texts.all fun text => text.toList.all fun c => !isInexpressible c) <| by
    simp only [List.all_eq_true, Bool.not_eq_true', ← Bool.not_eq_true, isInexpressible_iff]
    rfl

theorem expressible_list {items : List Value} :
    (list items).Expressible ↔ ∀ v ∈ items, v.Expressible := by
  have hall : (∀ text ∈ textsAll items, ∀ c ∈ text.toList, ¬ Text.Inexpressible c) ↔
      ∀ v ∈ items, v.Expressible := by
    induction items with
    | nil => simp [textsAll]
    | cons v rest ih =>
        rw [textsAll, List.forall_mem_append, List.forall_mem_cons, ih]
        rfl
  exact hall

theorem displayAll_eq (items : List Value) : displayAll items = items.map display := by
  induction items with
  | nil => rfl
  | cons v rest ih => rw [displayAll, ih, List.map_cons]

def itemsText (items : List Value) : List Char :=
  ", ".toList.intercalate (items.map fun v => v.display.toList)

theorem toList_display_list (items : List Value) (rest : List Char) :
    (list items).display.toList ++ rest = '[' :: (itemsText items ++ ']' :: rest) := by
  simp [display, displayAll_eq, itemsText, String.toList_intercalate, Function.comp_def]

theorem itemsText_singleton (v : Value) : itemsText [v] = v.display.toList := by
  simp [itemsText]

theorem itemsText_cons_cons (v w : Value) (items : List Value) (rest : List Char) :
    itemsText (v :: w :: items) ++ rest =
      v.display.toList ++ ',' :: ' ' :: (itemsText (w :: items) ++ rest) := by
  simp [itemsText, List.intercalate_cons_cons]

end Value

/-! ## The expression that is displayed -/

/-- The text of a value spells the symbols of an expression that denotes it. -/
structure Written (v : Value) (symbols : List Symbol) (e : Expr) : Prop where
  spelled : ∀ rest, WordEnds rest → Spelled symbols (v.display.toList ++ rest) rest
  primary : ∀ n, v.nesting ≤ n → (forms n).PrimaryOver symbols e
  denotes : ∀ ctx, e.eval ctx = .ok v
  descends : ∃ path, e.Path path ∧ (∀ node ∈ path, node.suffixes = 0) ∧
    path.countP Expr.opensLevel = v.nesting

structure WrittenAll (items : List Value) (symbols : List Symbol) (es : List Expr) : Prop where
  spelled : ∀ rest, WordEnds rest → Spelled symbols (Value.itemsText items ++ rest) rest
  separated : ∀ n, Value.nestingAll items ≤ n →
    Separated .comma (forms n).DisjunctionOver symbols es
  denotes : ∀ ctx, Expr.evalAll ctx es = .ok items
  descends : ∃ e ∈ es, ∃ path, e.Path path ∧ (∀ node ∈ path, node.suffixes = 0) ∧
    path.countP Expr.opensLevel = Value.nestingAll items

section Lists

variable {v w : Value} {items : List Value} {symbols later : List Symbol} {e : Expr}
  {es : List Expr}

theorem begins_display (l : Literal) (h : l.toValue.Expressible) {rest : List Char}
    (hends : WordEnds rest) : Begins (.literal l) (l.toValue.display.toList ++ rest) rest := by
  cases l with
  | str s => exact Token.string_eq_some_iff.mp (string_quote (h s List.mem_cons_self) rest)
  | nil => exact Level.begins_of_literal? (literal?_text .nil hends)
  | int n => exact Level.begins_of_literal? (literal?_text (.int n) hends)
  | bool b =>
      cases b with
      | true => exact Level.begins_of_literal? (literal?_text (.bool true) hends)
      | false => exact Level.begins_of_literal? (literal?_text (.bool false) hends)

theorem Written.literal (l : Literal) (h : l.toValue.Expressible) :
    Written l.toValue [.literal l] (.literal l) where
  spelled _ hends := .of_begins (begins_display l h hends)
  primary _ _ := .literal l
  denotes _ := rfl
  descends := by
    refine ⟨[.literal l], .leaf rfl, by simp [Expr.suffixes], ?_⟩
    cases l <;> rfl

theorem Written.disjunction (h : Written v symbols e) {n : Nat} (hn : v.nesting ≤ n) :
    (forms n).DisjunctionOver symbols e :=
  .of_negation (.of_primary (h.primary n hn))

theorem WrittenAll.one (h : Written v symbols e) : WrittenAll [v] symbols [e] where
  spelled rest hends := by
    rw [Value.itemsText_singleton]
    exact h.spelled rest hends
  separated n hn := .one (h.disjunction (by simpa [Value.nestingAll] using hn))
  denotes ctx := by
    simp [Expr.evalAll, h.denotes ctx, bind, Except.bind, pure, Except.pure]
  descends := by
    obtain ⟨path, hpath, hsuffixes, hcount⟩ := h.descends
    exact ⟨e, List.mem_cons_self, path, hpath, hsuffixes, by simpa [Value.nestingAll] using hcount⟩

theorem WrittenAll.more (h : Written v symbols e) (hrest : WrittenAll (w :: items) later es) :
    WrittenAll (v :: w :: items) (symbols ++ .comma :: later) (e :: es) where
  spelled rest hends := by
    rw [Value.itemsText_cons_cons]
    have hfirst := h.spelled (',' :: ' ' :: (Value.itemsText (w :: items) ++ rest))
      (wordEnds_cons (by decide))
    have hlater := (Spelled.blank _).append (hrest.spelled rest hends)
    exact hfirst.append ((Spelled.char .comma _).append hlater)
  separated n hn := by
    rw [Value.nestingAll, Nat.max_le] at hn
    exact .more (h.disjunction hn.1) (hrest.separated n hn.2)
  denotes ctx := by
    simp [Expr.evalAll, h.denotes ctx, hrest.denotes ctx, bind, Except.bind, pure, Except.pure]
  descends := by
    rw [Value.nestingAll]
    -- the deepest list lies in the first item or in one of the others
    rcases Nat.le_total v.nesting (Value.nestingAll (w :: items)) with hle | hle
    · obtain ⟨f, hf, hdescends⟩ := hrest.descends
      rw [Nat.max_eq_right hle]
      exact ⟨f, List.mem_cons_of_mem e hf, hdescends⟩
    · rw [Nat.max_eq_left hle]
      exact ⟨e, List.mem_cons_self, h.descends⟩

theorem exists_writtenAll (hne : items ≠ [])
    (h : ∀ v ∈ items, ∃ symbols e, Written v symbols e) :
    ∃ symbols es, WrittenAll items symbols es := by
  induction items with
  | nil => exact absurd rfl hne
  | cons v rest ih =>
      obtain ⟨⟨symbols, e, hv⟩, hrest⟩ := List.forall_mem_cons.mp h
      cases rest with
      | nil => exact ⟨symbols, [e], .one hv⟩
      | cons w rest =>
          obtain ⟨later, es, hall⟩ := ih (List.cons_ne_nil w rest) hrest
          exact ⟨_, _, .more hv hall⟩

theorem Written.empty :
    Written (.list []) [.openBracket, .closeBracket] (.list []) where
  spelled rest _ := (Spelled.char .openBracket _).append (Spelled.char .closeBracket rest)
  primary n hn := by
    cases n with
    | zero => exact absurd hn (by decide)
    | succ n =>
        have harguments : (forms (n + 1)).arguments [] [] := Listed.none
        exact .list harguments
  denotes _ := rfl
  descends := ⟨[.list []], .leaf rfl, by simp [Expr.suffixes], rfl⟩

theorem Written.list (h : WrittenAll items symbols es) :
    Written (.list items) (.openBracket :: (symbols ++ [.closeBracket])) (.list es) where
  spelled rest _ := by
    rw [Value.toList_display_list]
    have hitems := h.spelled (']' :: rest) (wordEnds_cons (by decide))
    exact (Spelled.char .openBracket _).append (hitems.append (Spelled.char .closeBracket rest))
  primary n hn := by
    cases n with
    | zero => exact absurd hn (Nat.not_succ_le_zero _)
    | succ n => exact .list (Listed.some (h.separated n (Nat.le_of_succ_le_succ hn)))
  denotes ctx := by
    simp [Expr.eval, h.denotes ctx, bind, Except.bind, pure, Except.pure]
  descends := by
    obtain ⟨e, he, path, hpath, hsuffixes, hcount⟩ := h.descends
    refine ⟨.list es :: path, .step he hpath, List.forall_mem_cons.mpr ⟨rfl, hsuffixes⟩, ?_⟩
    rw [List.countP_cons_of_pos rfl, hcount]
    rfl

end Lists

theorem Value.Plain.exists_written {v : Value} (h : v.Plain) (hexpressible : v.Expressible) :
    ∃ symbols e, Written v symbols e := by
  induction h with
  | nil => exact ⟨_, _, .literal .nil hexpressible⟩
  | bool b => exact ⟨_, _, .literal (.bool b) hexpressible⟩
  | int n => exact ⟨_, _, .literal (.int n) hexpressible⟩
  | str s => exact ⟨_, _, .literal (.str s) hexpressible⟩
  | @list items _ ih =>
      cases items with
      | nil => exact ⟨_, _, .empty⟩
      | cons v rest =>
          have hitems := expressible_list.mp hexpressible
          obtain ⟨symbols, es, hall⟩ := exists_writtenAll (List.cons_ne_nil v rest)
            fun w hw => ih w hw (hitems w hw)
          exact ⟨_, _, .list hall⟩

/-- A value is read back as its expression, unless its lists nest too deep. -/
theorem Written.parse_display {v : Value} {symbols : List Symbol} {e : Expr}
    (h : Written v symbols e) :
    Expr.parse v.display = if v.nesting ≤ maxNesting then .ok e else .error .tooDeep := by
  have hspelled : Spelled symbols v.display.toList [] := by
    simpa using h.spelled [] wordEnds_nil
  have hforms : (forms (v.nesting + 1)).disjunction symbols e := h.disjunction le_rfl
  rcases parse_of_forms hspelled hforms with hok | ⟨hdeep, hrefused⟩
  · -- the way down to the innermost list is direct, so the limit holds on it
    obtain ⟨path, hpath, hsuffixes, hcount⟩ := h.descends
    have hbound := (Expr.within_of_parse hok).direct path hpath
      (hpath.direct_of_suffixes hsuffixes)
    rw [hok, if_pos (hcount ▸ hbound)]
  · rw [hrefused, if_neg (by omega)]

/-! ## What a displayed value needs to be read -/

theorem isQuote_text (l : Literal) (h : ∀ s, l ≠ .str s) : ∀ c ∈ l.text, isQuote c = false := by
  cases l with
  | str s => exact absurd rfl (h s)
  | nil => simp [Literal.text, isQuote]
  | bool b => cases b <;> simp [Literal.text, isQuote]
  | int n =>
      obtain ⟨text, htext, hspells⟩ :=
        Level.begins_of_literal? (literal?_text (.int n) wordEnds_nil)
      rw [List.append_nil, List.append_nil] at htext
      rw [htext]
      exact unquoted_of_spells hspells (by simp)

theorem closed_itemsText {items : List Value} {rest : List Char}
    (h : ∀ v ∈ items, ∀ rest, Closed (v.display.toList ++ rest) → v.Expressible ∧ Closed rest)
    (hclosed : Closed (Value.itemsText items ++ rest)) :
    (∀ v ∈ items, v.Expressible) ∧ Closed rest := by
  induction items with
  | nil => exact ⟨by simp, hclosed⟩
  | cons v items ih =>
      obtain ⟨hv, hitems⟩ := List.forall_mem_cons.mp h
      cases items with
      | nil =>
          rw [Value.itemsText_singleton] at hclosed
          obtain ⟨hexpressible, hrest⟩ := hv rest hclosed
          exact ⟨List.forall_mem_singleton.mpr hexpressible, hrest⟩
      | cons w items =>
          rw [Value.itemsText_cons_cons] at hclosed
          obtain ⟨hexpressible, hlater⟩ := hv _ hclosed
          obtain ⟨hall, hrest⟩ := ih hitems (.of_cons (by decide) (.of_cons (by decide) hlater))
          exact ⟨List.forall_mem_cons.mpr ⟨hexpressible, hall⟩, hrest⟩

theorem expressible_of_closed_literal (l : Literal) (hl : ∀ s, l ≠ .str s) {rest : List Char}
    (hclosed : Closed (l.text ++ rest)) : l.toValue.Expressible ∧ Closed rest := by
  refine ⟨?_, .of_append (isQuote_text l hl) hclosed⟩
  cases l with
  | str s => exact absurd rfl (hl s)
  | _ => exact List.forall_mem_nil _

/-- Where all strings end in the text of a value, rules know all its escapes. -/
theorem Value.Plain.expressible_of_closed {v : Value} (h : v.Plain) (rest : List Char)
    (hclosed : Closed (v.display.toList ++ rest)) : v.Expressible ∧ Closed rest := by
  induction h generalizing rest with
  | nil => exact expressible_of_closed_literal .nil (by simp) hclosed
  | bool b => cases b <;> exact expressible_of_closed_literal (.bool _) (by simp) hclosed
  | int n => exact expressible_of_closed_literal (.int n) (by simp) hclosed
  | str s =>
      obtain ⟨hexpressible, hrest⟩ := Closed.of_quote hclosed
      exact ⟨List.forall_mem_singleton.mpr hexpressible, hrest⟩
  | list _ ih =>
      rw [Value.toList_display_list] at hclosed
      obtain ⟨hall, hrest⟩ := closed_itemsText ih (.of_cons (by decide) hclosed)
      exact ⟨expressible_list.mpr hall, .of_cons (by decide) hrest⟩

theorem Value.Plain.expressible_of_parse {v : Value} (h : v.Plain) {e : Expr}
    (hparse : Expr.parse v.display = .ok e) : v.Expressible := by
  obtain ⟨symbols, hspelled, -⟩ := parse_eq_ok_iff.mp hparse
  have hclosed : Closed (v.display.toList ++ []) := by
    rw [List.append_nil]
    exact hspelled.closed .nil
  exact (h.expressible_of_closed [] hclosed).1

theorem compile_eq_ok_iff {source : String} {program : Program} :
    Program.compile source = .ok program ↔
      Expr.parse source = .ok program.expr ∧ program.source = source := by
  unfold Program.compile
  obtain ⟨text, e⟩ := program
  cases Expr.parse source <;> simp [and_comm, eq_comm]

/--
A displayed value without maps is a rule exactly if its lists nest at most 64 deep and rules know
the escapes of all characters in its texts. The rule then has the value in every context.
-/
theorem compile_display {v : Value} (h : v.Plain) :
    ((∃ program, Program.compile v.display = .ok program) ↔
      v.nesting ≤ 64 ∧ ∀ text ∈ v.texts, ∀ c ∈ text.toList, ¬ Text.Inexpressible c) ∧
    ∀ program, Program.compile v.display = .ok program → ∀ ctx, program.run ctx = .ok v := by
  have hread : ∀ program, Program.compile v.display = .ok program →
      v.Expressible ∧ v.nesting ≤ 64 ∧ ∀ ctx, program.run ctx = .ok v := by
    intro program hcompile
    have hparse := (compile_eq_ok_iff.mp hcompile).1
    have hexpressible := h.expressible_of_parse hparse
    obtain ⟨symbols, e, hwritten⟩ := h.exists_written hexpressible
    rw [hwritten.parse_display] at hparse
    split at hparse
    · next hfits =>
      obtain rfl := Except.ok.inj hparse
      exact ⟨hexpressible, hfits, hwritten.denotes⟩
    · cases hparse
  refine ⟨⟨?_, ?_⟩, fun program hcompile => (hread program hcompile).2.2⟩
  · intro hcompiles
    obtain ⟨program, hcompile⟩ := hcompiles
    obtain ⟨hexpressible, hfits, -⟩ := hread program hcompile
    exact ⟨hfits, hexpressible⟩
  · intro hfits
    obtain ⟨hnesting, hexpressible⟩ := hfits
    obtain ⟨symbols, e, hwritten⟩ := h.exists_written hexpressible
    have hparse := hwritten.parse_display.trans (if_pos hnesting)
    exact ⟨⟨v.display, e⟩, compile_eq_ok_iff.mpr ⟨hparse, rfl⟩⟩

/-- The least integer, all escapes that rules know and an empty list are read back, and a carriage
return is not. -/
theorem compile_display_mixed :
    (∃ v : Value, v.display = "[-9223372036854775808, [\"\\\"\\\\\\n\\t\", []], nil]" ∧ v.Plain ∧
      ∃ program, Program.compile v.display = .ok program ∧ ∀ ctx, program.run ctx = .ok v) ∧
    ¬ ∃ program, Program.compile (Value.str "\r").display = .ok program := by
  have hinner : (Value.list [.str "\"\\\n\t", .list []]).Plain :=
    .list (List.forall_mem_cons.mpr ⟨.str _, List.forall_mem_singleton.mpr (.list (by simp))⟩)
  have hplain :
      (Value.list [.int Int64.minValue, .list [.str "\"\\\n\t", .list []], .nil]).Plain :=
    .list (List.forall_mem_cons.mpr ⟨.int _, List.forall_mem_cons.mpr ⟨hinner,
      List.forall_mem_singleton.mpr .nil⟩⟩)
  have hexpressible :
      (Value.list [.int Int64.minValue, .list [.str "\"\\\n\t", .list []], .nil]).Expressible := by
    decide +kernel
  have hspoiled : ¬ (Value.str "\r").Expressible := by
    decide +kernel
  obtain ⟨hcompiles, hruns⟩ := compile_display hplain
  obtain ⟨program, hprogram⟩ := hcompiles.mpr ⟨by decide, hexpressible⟩
  refine ⟨⟨_, by decide +kernel, hplain, program, hprogram, hruns program hprogram⟩, ?_⟩
  exact fun hother => hspoiled ((compile_display (.str "\r")).1.mp hother).2

end Rule
end Workplan
