import Workplan.Proofs.Rule.Acceptance

/-!
# How deep accepted rules nest

A path leads from a node to one of its parts and on from there, down to a leaf. What may stand on a
level bounds its paths: a bracket or a negation leads to the level inside, and a chain of suffixes
has at most one suffix for each level left. But the levels of a chain are counted from where the
chain stands, and not from the levels inside its base. So the limit holds on the paths that go
through no base of an indexing or a member access, and the others add up over the levels.
-/

namespace Workplan
namespace Rule
namespace Expr

def parts : Expr → List Expr
  | literal _ => []
  | ident _ => []
  | list items => items
  | index base at_ => [base, at_]
  | member base _ => [base]
  | call _ arguments => arguments
  | negation operand => [operand]
  | compare _ left right => [left, right]
  | conjunction terms => terms
  | disjunction terms => terms

def opensLevel : Expr → Bool
  | list _ => true
  | index _ _ => true
  | member _ _ => true
  | call _ _ => true
  | negation _ => true
  | _ => false

/-- The parts on the level that a node opens. The base of a suffix is not one of them. -/
def inside : Expr → List Expr
  | list items => items
  | index _ at_ => [at_]
  | call _ arguments => arguments
  | negation operand => [operand]
  | _ => []

/-- The nodes on a way from an expression down to a leaf. -/
inductive Path : Expr → List Expr → Prop where
  | leaf {e : Expr} : e.parts = [] → Path e [e]
  | step {e part : Expr} {path : List Expr} : part ∈ e.parts → Path part path →
      Path e (e :: path)

/-- A path that goes on inside every level it opens: it leaves no indexing and no member access
through its base. -/
def Direct (path : List Expr) : Prop :=
  path.IsChain fun e part => e.opensLevel → part ∈ e.inside

/-- Bounds on what the paths of an expression pass through: nodes that open a level, such nodes on
direct paths, and nodes of any kind. -/
structure Bounded (levels direct nodes : Nat) (e : Expr) : Prop where
  levels : ∀ path, e.Path path → path.countP opensLevel ≤ levels
  direct : ∀ path, e.Path path → Direct path → path.countP opensLevel ≤ direct
  nodes : ∀ path, e.Path path → path.length ≤ nodes

variable {e base : Expr} {levels direct nodes w : Nat}

theorem Path.head {path : List Expr} (h : e.Path path) : ∃ rest, path = e :: rest := by
  cases h with
  | leaf _ => exact ⟨[], rfl⟩
  | step _ _ => exact ⟨_, rfl⟩

namespace Bounded

theorem mono {levels' direct' nodes' : Nat} (h : e.Bounded levels direct nodes)
    (hlevels : levels ≤ levels') (hdirect : direct ≤ direct') (hnodes : nodes ≤ nodes') :
    e.Bounded levels' direct' nodes' where
  levels path hpath := (h.levels path hpath).trans hlevels
  direct path hpath hdir := (h.direct path hpath hdir).trans hdirect
  nodes path hpath := (h.nodes path hpath).trans hnodes

/-- A node adds itself to the paths of its parts, and direct paths go on inside of it only. -/
theorem node (hw : (if e.opensLevel then 1 else 0) = w)
    (hparts : ∀ part ∈ e.parts, ∃ d, part.Bounded levels d nodes)
    (hinside : ∀ part ∈ e.parts, (e.opensLevel → part ∈ e.inside) →
      ∃ l m, part.Bounded l direct m) : e.Bounded (levels + w) (direct + w) (nodes + 1) where
  levels path hpath := by
    cases hpath with
    | leaf _ => simp only [List.countP_singleton, hw, Nat.le_add_left]
    | step hpart hpath =>
        obtain ⟨d, hbounded⟩ := hparts _ hpart
        have hrest := hbounded.levels _ hpath
        rw [List.countP_cons, hw]
        omega
  direct path hpath hdirect := by
    cases hpath with
    | leaf _ => simp only [List.countP_singleton, hw, Nat.le_add_left]
    | step hpart hpath =>
        obtain ⟨rest, rfl⟩ := hpath.head
        obtain ⟨hfirst, hlater⟩ := List.isChain_cons_cons.mp hdirect
        obtain ⟨l, m, hbounded⟩ := hinside _ hpart hfirst
        have hrest := hbounded.direct _ hpath hlater
        rw [List.countP_cons, hw]
        omega
  nodes path hpath := by
    cases hpath with
    | leaf _ => simp
    | step hpart hpath =>
        obtain ⟨d, hbounded⟩ := hparts _ hpart
        exact Nat.succ_le_succ (hbounded.nodes _ hpath)

/-- A node that opens a level, with parts that all keep the same bounds. -/
theorem opening (hopens : e.opensLevel = true)
    (h : ∀ part ∈ e.parts, part.Bounded levels direct nodes) :
    e.Bounded (levels + 1) (direct + 1) (nodes + 1) :=
  node (if_pos hopens) (fun part hpart => ⟨direct, h part hpart⟩)
    fun part hpart _ => ⟨levels, nodes, h part hpart⟩

/-- A node that opens none. -/
theorem joining (hopens : e.opensLevel = false)
    (h : ∀ part ∈ e.parts, part.Bounded levels direct nodes) :
    e.Bounded levels direct (nodes + 1) :=
  node (w := 0) (by simp [hopens]) (fun part hpart => ⟨direct, h part hpart⟩)
    fun part hpart _ => ⟨levels, nodes, h part hpart⟩

end Bounded

/-! ## Bounds of a level -/

/-- The most nodes that open a level on a path of a primary expression, where `n` levels may open:
a bracket, and inside it a primary expression with a suffix for each level left. -/
def primaryLevels : Nat → Nat
  | 0 => 0
  | n + 1 => primaryLevels n + n + 1

/-- The most nodes on such a path: beside those that open a level, a disjunction, a conjunction and
a comparison for each level, and a leaf at the end. -/
def primaryNodes : Nat → Nat
  | 0 => 1
  | n + 1 => primaryNodes n + n + 4

theorem primaryNodes_pos (n : Nat) : 0 < primaryNodes n := by
  cases n <;> simp [primaryNodes]

def OperandWithin (n : Nat) (e : Expr) : Prop :=
  e.Bounded (primaryLevels n + n) n (primaryNodes n + n)

def Within (n : Nat) (e : Expr) : Prop :=
  e.Bounded (primaryLevels n + n) n (primaryNodes n + n + 3)

/-- Suffixes add at most `n` nodes to a base with room for a primary expression. -/
def ExtendsWithin (n : Nat) (base e : Expr) : Prop :=
  ∀ levels direct nodes, base.Bounded levels direct nodes → primaryLevels n ≤ levels →
    n ≤ direct → primaryNodes n ≤ nodes → e.Bounded (levels + n) direct (nodes + n)

/-- One suffix, and those that go on it a level further inside. -/
theorem ExtendsWithin.succ {k : Nat} (h : base.ExtendsWithin k e)
    (hbase : base.Bounded (levels + 1) (k + 1) (nodes + 1))
    (hlevels : primaryLevels (k + 1) ≤ levels) (hdirect : k + 1 ≤ direct)
    (hnodes : primaryNodes (k + 1) ≤ nodes) :
    e.Bounded (levels + (k + 1)) direct (nodes + (k + 1)) := by
  have hlater : e.Bounded (levels + 1 + k) direct (nodes + 1 + k) := by
    refine h _ _ _ (hbase.mono le_rfl hdirect le_rfl) ?_ (Nat.le_of_succ_le hdirect) ?_
    · rw [primaryLevels] at hlevels
      omega
    · rw [primaryNodes] at hnodes
      omega
  rwa [Nat.add_right_comm levels, Nat.add_right_comm nodes] at hlater

end Expr

namespace Forms

open Rule.Expr

variable {f : Forms} {n : Nat} {symbols later : List Symbol} {base e : Expr} {es : List Expr}

/-- What may stand on a level keeps the bounds for the levels inside it. -/
structure Within (n : Nat) (f : Forms) : Prop where
  disjunction : ∀ symbols e, f.disjunction symbols e → ∃ k, n = k + 1 ∧ e.Within k
  arguments : ∀ symbols es, f.arguments symbols es → ∃ k, n = k + 1 ∧ ∀ e ∈ es, e.Within k
  negation : ∀ symbols e, f.negation symbols e → ∃ k, n = k + 1 ∧ e.OperandWithin k
  suffixes : ∀ base symbols e, f.suffixes base symbols e →
    ∃ k, n = k + 1 ∧ base.ExtendsWithin k e

theorem primaryOver_bounded (hf : f.Within n) (h : f.PrimaryOver symbols e) :
    e.Bounded (primaryLevels n) n (primaryNodes n) := by
  have hleaf : ∀ leaf : Expr, leaf.opensLevel = false → leaf.parts = [] →
      leaf.Bounded (primaryLevels n) n (primaryNodes n) := by
    intro leaf hopens hparts
    have hnode : leaf.Bounded 0 0 (0 + 1) := .joining hopens (by simp [hparts])
    exact hnode.mono (Nat.zero_le _) (Nat.zero_le _) (primaryNodes_pos n)
  cases h with
  | parens hinside =>
      obtain ⟨k, rfl, he⟩ := hf.disjunction _ _ hinside
      exact he.mono (Nat.le_succ _) (Nat.le_succ _) (Nat.le_succ _)
  | list hinside =>
      obtain ⟨k, rfl, hitems⟩ := hf.arguments _ _ hinside
      exact .opening rfl hitems
  | literal v => exact hleaf _ rfl rfl
  | call hinside =>
      obtain ⟨k, rfl, harguments⟩ := hf.arguments _ _ hinside
      exact .opening rfl harguments
  | ident name => exact hleaf _ rfl rfl

theorem suffixesOver_within (hf : f.Within n) (h : f.SuffixesOver base later e) :
    base.ExtendsWithin n e := by
  intro levels direct nodes hbase hlevels hdirect hnodes
  cases h with
  | none => exact hbase.mono (Nat.le_add_right _ _) le_rfl (Nat.le_add_right _ _)
  | @index _ _ at_ _ hinside hlater =>
      obtain ⟨k, rfl, hat⟩ := hf.disjunction _ _ hinside
      obtain ⟨j, hj, hextends⟩ := hf.suffixes _ _ _ hlater
      obtain rfl : k = j := Nat.succ.inj hj
      -- the base bounds all paths but the direct ones, which go on in the brackets only
      have hnode : (Expr.index base at_).Bounded (levels + 1) (k + 1) (nodes + 1) := by
        refine .node rfl ?_ ?_
        · intro part hpart
          rcases List.mem_pair.mp hpart with rfl | rfl
          · exact ⟨direct, hbase⟩
          · exact ⟨k, hat.mono (Nat.le_of_succ_le hlevels) le_rfl (Nat.le_of_succ_le hnodes)⟩
        · intro part _ hinside
          obtain rfl : part = at_ := List.mem_singleton.mp (hinside rfl)
          exact ⟨_, _, hat⟩
      exact hextends.succ hnode hlevels hdirect hnodes
  | @member _ field _ hlater =>
      obtain ⟨k, rfl, hextends⟩ := hf.suffixes _ _ _ hlater
      have hnode : (Expr.member base field).Bounded (levels + 1) (k + 1) (nodes + 1) := by
        refine .node rfl ?_ ?_
        · intro part hpart
          obtain rfl : part = base := List.mem_singleton.mp hpart
          exact ⟨direct, hbase⟩
        · intro part _ hinside
          exact absurd (hinside rfl) List.not_mem_nil
      exact hextends.succ hnode hlevels hdirect hnodes

theorem negationOver_within (hf : f.Within n) (h : f.NegationOver symbols e) :
    e.OperandWithin n := by
  cases h with
  | plain hprimary hsuffixes =>
      exact suffixesOver_within hf hsuffixes _ _ _ (primaryOver_bounded hf hprimary) le_rfl le_rfl
        le_rfl
  | @negated _ operand hnegation =>
      obtain ⟨k, rfl, hoperand⟩ := hf.negation _ _ hnegation
      have hnode : (Expr.negation operand).Bounded (primaryLevels k + k + 1) (k + 1)
          (primaryNodes k + k + 1) :=
        .opening rfl (List.forall_mem_singleton.mpr hoperand)
      refine hnode.mono ?_ le_rfl ?_
      · rw [primaryLevels]
        omega
      · rw [primaryNodes]
        omega

theorem comparisonOver_bounded (hf : f.Within n) (h : f.ComparisonOver symbols e) :
    e.Bounded (primaryLevels n + n) n (primaryNodes n + n + 1) := by
  cases h with
  | single hoperand => exact (negationOver_within hf hoperand).mono le_rfl le_rfl (Nat.le_succ _)
  | compare hleft hright =>
      refine .joining rfl fun part hpart => ?_
      rcases List.mem_pair.mp hpart with rfl | rfl
      · exact negationOver_within hf hleft
      · exact negationOver_within hf hright

theorem forall_mem_of_separated {sep : Symbol} {item : List Symbol → Expr → Prop}
    {P : Expr → Prop} (hitem : ∀ symbols e, item symbols e → P e)
    (h : Separated sep item symbols es) : ∀ e ∈ es, P e := by
  induction h with
  | one he => exact List.forall_mem_singleton.mpr (hitem _ _ he)
  | more he _ ih => exact List.forall_mem_cons.mpr ⟨hitem _ _ he, ih⟩

theorem chained_bounded {sep : Symbol} {node : List Expr → Expr}
    {item : List Symbol → Expr → Prop} {levels direct nodes : Nat}
    (hnode : ∀ es, (node es).opensLevel = false ∧ (node es).parts = es)
    (hitem : ∀ symbols e, item symbols e → e.Bounded levels direct nodes)
    (h : Chained sep node item symbols e) : e.Bounded levels direct (nodes + 1) := by
  cases h with
  | single he => exact (hitem _ _ he).mono le_rfl le_rfl (Nat.le_succ _)
  | @chain es hes _ =>
      have hparts : ∀ part ∈ (node es).parts, part.Bounded levels direct nodes := by
        rw [(hnode es).2]
        exact forall_mem_of_separated hitem hes
      exact .joining (hnode es).1 hparts

theorem disjunctionOver_within (hf : f.Within n) (h : f.DisjunctionOver symbols e) :
    e.Within n :=
  chained_bounded (fun _ => ⟨rfl, rfl⟩)
    (fun _ _ => chained_bounded (fun _ => ⟨rfl, rfl⟩) fun _ _ => comparisonOver_bounded hf) h

theorem beyond_within : Forms.beyond.Within 0 where
  disjunction _ _ h := h.elim
  arguments _ _ h := h.elim
  negation _ _ h := h.elim
  suffixes _ _ _ h := h.elim

theorem around_within (hf : f.Within n) : f.around.Within (n + 1) where
  disjunction _ _ h := ⟨n, rfl, disjunctionOver_within hf h⟩
  arguments _ _ h := by
    refine ⟨n, rfl, ?_⟩
    cases h with
    | none => simp
    | some hes => exact forall_mem_of_separated (fun _ _ => disjunctionOver_within hf) hes
  negation _ _ h := ⟨n, rfl, negationOver_within hf h⟩
  suffixes _ _ _ h := ⟨n, rfl, suffixesOver_within hf h⟩

end Forms

theorem forms_within (n : Nat) : (forms n).Within n := by
  induction n with
  | zero => exact Forms.beyond_within
  | succ n ih => exact Forms.around_within ih

namespace Expr

theorem within_of_parse {source : String} {e : Expr} (h : parse source = .ok e) :
    e.Within maxNesting := by
  obtain ⟨symbols, -, hdisjunction⟩ := parse_eq_ok_iff.mp h
  obtain ⟨k, hk, hwithin⟩ := (forms_within _).disjunction symbols e hdisjunction
  obtain rfl : maxNesting = k := Nat.succ.inj hk
  exact hwithin

end Expr

/-- The limit holds on direct paths; on any path, each level adds the suffixes that fit there. -/
theorem parse_nesting {source : String} {e : Expr} {path : List Expr}
    (h : Expr.parse source = .ok e) (hpath : e.Path path) :
    (Expr.Direct path → path.countP Expr.opensLevel ≤ maxNesting) ∧
      path.countP Expr.opensLevel ≤ 2144 := by
  have hwithin := Expr.within_of_parse h
  exact ⟨hwithin.direct path hpath, hwithin.levels path hpath⟩

/-! ## Paths through the first parts -/

namespace Expr

mutual

def leftmost : Expr → List Expr
  | literal value => [literal value]
  | ident name => [ident name]
  | list items => list items :: leftmostOf items
  | index base at_ => index base at_ :: leftmost base
  | member base field => member base field :: leftmost base
  | call function arguments => call function arguments :: leftmostOf arguments
  | negation operand => negation operand :: leftmost operand
  | compare op left right => compare op left right :: leftmost left
  | conjunction terms => conjunction terms :: leftmostOf terms
  | disjunction terms => disjunction terms :: leftmostOf terms

def leftmostOf : List Expr → List Expr
  | [] => []
  | e :: _ => leftmost e

end

theorem path_leftmostOf {e : Expr} {es : List Expr} (hparts : e.parts = es)
    (h : ∀ part ∈ es, part.Path part.leftmost) : e.Path (e :: leftmostOf es) := by
  cases es with
  | nil => exact .leaf hparts
  | cons part more => exact .step (hparts ▸ List.mem_cons_self) (h part List.mem_cons_self)

mutual

theorem path_leftmost : (e : Expr) → e.Path e.leftmost
  | literal _ => .leaf rfl
  | ident _ => .leaf rfl
  | list items => path_leftmostOf rfl (path_leftmost_of_mem items)
  | index base _ => .step List.mem_cons_self (path_leftmost base)
  | member base _ => .step List.mem_cons_self (path_leftmost base)
  | call _ arguments => path_leftmostOf rfl (path_leftmost_of_mem arguments)
  | negation operand => .step List.mem_cons_self (path_leftmost operand)
  | compare _ left _ => .step List.mem_cons_self (path_leftmost left)
  | conjunction terms => path_leftmostOf rfl (path_leftmost_of_mem terms)
  | disjunction terms => path_leftmostOf rfl (path_leftmost_of_mem terms)

theorem path_leftmost_of_mem : (es : List Expr) → ∀ e ∈ es, e.Path e.leftmost
  | [] => by simp
  | e :: es => List.forall_mem_cons.mpr ⟨path_leftmost e, path_leftmost_of_mem es⟩

end

/-- A path without indexings and member accesses is direct. -/
theorem Path.direct_of_suffixes {e : Expr} {path : List Expr} (h : e.Path path)
    (hsuffixes : ∀ node ∈ path, node.suffixes = 0) : Direct path := by
  induction h with
  | leaf _ => exact .singleton _
  | @step e part path hpart hpath ih =>
      obtain ⟨hfirst, hlater⟩ := List.forall_mem_cons.mp hsuffixes
      have hinside : e.opensLevel → part ∈ e.inside := by
        cases e with
        | index base at_ => exact absurd hfirst (Nat.succ_ne_zero _)
        | member base field => exact absurd hfirst (Nat.succ_ne_zero _)
        | list items => exact fun _ => hpart
        | call function arguments => exact fun _ => hpart
        | negation operand => exact fun _ => hpart
        | _ => exact fun hopens => absurd hopens Bool.false_ne_true
      obtain ⟨rest, rfl⟩ := hpath.head
      exact List.isChain_cons_cons.mpr ⟨hinside, ih hlater⟩

end Expr

/-- A direct path on which every level is opened. -/
theorem parse_nesting_negations : ∃ e path,
    Expr.parse (String.ofList (List.replicate 64 '!' ++ ['x'])) = .ok e ∧ e.Path path ∧
      Expr.Direct path ∧ path.countP Expr.opensLevel = 64 ∧
        path.countP Expr.opensLevel ≤ maxNesting := by
  have hpath : (Expr.parse (String.ofList (List.replicate 64 '!' ++ ['x']))).toOption.map
      (fun e => (e.leftmost.map Expr.suffixes, e.leftmost.countP Expr.opensLevel)) =
        some (List.replicate 65 0, 64) := by
    decide +kernel
  obtain ⟨e, he, heq⟩ := exists_of_parse_map hpath
  obtain ⟨hsuffixes, hcount⟩ := Prod.mk.inj heq
  have hdirect : Expr.Direct e.leftmost := by
    refine (Expr.path_leftmost e).direct_of_suffixes fun node hnode => ?_
    have hmem : node.suffixes ∈ List.replicate 65 0 := hsuffixes ▸ List.mem_map_of_mem hnode
    exact List.eq_of_mem_replicate hmem
  exact ⟨e, _, he, Expr.path_leftmost e, hdirect, hcount,
    (parse_nesting he (Expr.path_leftmost e)).1 hdirect⟩

/-- Parentheses around a base let more suffixes follow than the limit, though none of them may stand
without the parentheses. -/
theorem parse_nesting_parentheses :
    (∃ e path, Expr.parse ("(x" ++ String.join (List.replicate 63 ".a") ++ ").a.a") = .ok e ∧
      e.Path path ∧ maxNesting < path.countP Expr.opensLevel) ∧
    Expr.parse ("x" ++ String.join (List.replicate 65 ".a")) = .error .tooDeep := by
  have haccepted : (Expr.parse
      ("(x" ++ String.join (List.replicate 63 ".a") ++ ").a.a")).toOption.map
        (fun e => e.leftmost.countP Expr.opensLevel) = some 65 := by
    decide +kernel
  have hrefused : (Expr.parse ("x" ++ String.join (List.replicate 65 ".a"))).map (fun _ => ()) =
      .error .tooDeep := by
    decide +kernel
  obtain ⟨e, he, hcount⟩ := exists_of_parse_map haccepted
  exact ⟨⟨e, _, he, Expr.path_leftmost e, hcount ▸ by decide⟩, parse_of_map_error hrefused⟩

end Rule
end Workplan
