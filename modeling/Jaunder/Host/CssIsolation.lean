import Jaunder.Foundation.TreeWalks
import Jaunder.Host.CssContainment
import Mathlib.Data.List.TakeWhile

namespace Jaunder.Host.CssIsolation

open Foundation.Ledger Foundation.Outcome Foundation.TreeWalks
open Jaunder.Common.Hash
open Jaunder.Host.ThemeCss Jaunder.Host.CssContainment

section Matching

/-- The elements of a page, and what a simple selector says of each. -/
structure Document (ν : Type) extends Forest ν where
  holds : Component → ν → Prop

/-- Where a combinator leads from the element on its left. What stands behind the others, such as a
pseudo-element, belongs to that element. -/
def combinatorMove (text : String) : Move :=
  if text = ">" then .child
  else if text = "+" then .nextSibling
  else if text = "~" then .laterSibling
  else if text = ">>>" ∨ text = "/deep/" then .descendant
  else .stay

def moveOf : Component → Option Move
  | .descendant => some .descendant
  | .combinator text => some (combinatorMove text)
  | _ => none

/-- An element is matched by a selector whose leftmost compound is matched by the leader. -/
def MatchesFrom {ν : Type} (d : Document ν) (leader : ν) : Selector → ν → Prop
  | [], x => x = leader
  | c :: selector, x =>
    if c.isCombinator then
      ∃ y, MatchesFrom d leader selector y ∧ Moved d.toForest ((moveOf c).getD .stay) y x
    else d.holds c x ∧ MatchesFrom d leader selector x

/-- The moves of a selector in the order of its text. -/
def moves (selector : Selector) : List Move := (selector.filterMap moveOf).reverse

/-- In every document a match is the element of the leftmost compound or stands under it. -/
def Contained (selector : Selector) : Prop :=
  ∀ (ν : Type) (d : Document ν) (leader x : ν), MatchesFrom d leader selector x →
    Below d.toForest leader x

/-- The leftmost compound asks for everything that the boundary asks for. -/
def Led (boundary selector : Selector) : Prop :=
  ∀ (ν : Type) (d : Document ν) (leader x : ν), MatchesFrom d leader selector x →
    ∀ c ∈ boundary, d.holds c leader

variable {ν : Type} {d : Document ν} {leader x : ν} {c : Component} {selector k : Selector}

theorem moveOf_of_isCombinator (h : c.isCombinator = true) :
    moveOf c = some ((moveOf c).getD .stay) := by
  cases c with
  | descendant => rfl
  | combinator text => rfl
  | _ => cases h

theorem moveOf_eq_none (h : c.isCombinator = false) : moveOf c = none := by
  cases c with
  | descendant => cases h
  | combinator text => cases h
  | _ => rfl

theorem moves_cons_combinator (h : c.isCombinator = true) :
    moves (c :: selector) = moves selector ++ [(moveOf c).getD .stay] := by
  unfold moves
  rw [List.filterMap_cons_some (moveOf_of_isCombinator h), List.reverse_cons]

theorem moves_cons_simple (h : c.isCombinator = false) : moves (c :: selector) = moves selector := by
  unfold moves
  rw [List.filterMap_cons_none (moveOf_eq_none h)]

theorem walk_of_matchesFrom (h : MatchesFrom d leader selector x) :
    Walk d.toForest (moves selector) leader x := by
  induction selector generalizing x with
  | nil => exact h
  | cons c selector ih =>
    unfold MatchesFrom at h
    split at h
    · rename_i hc
      obtain ⟨y, hy, hm⟩ := h
      rw [moves_cons_combinator hc]
      exact walk_append.mpr ⟨y, ih hy, walk_singleton.mpr hm⟩
    · rename_i hc
      rw [moves_cons_simple (Bool.not_eq_true _ ▸ hc)]
      exact ih h.2

/-- Where every simple selector holds, a selector matches along its moves. -/
theorem matchesFrom_of_walk (hholds : ∀ c x, d.holds c x)
    (h : Walk d.toForest (moves selector) leader x) : MatchesFrom d leader selector x := by
  induction selector generalizing x with
  | nil => exact h
  | cons c selector ih =>
    unfold MatchesFrom
    split
    · rename_i hc
      rw [moves_cons_combinator hc] at h
      obtain ⟨y, hy, hm⟩ := walk_append.mp h
      exact ⟨y, ih hy, walk_singleton.mp hm⟩
    · rename_i hc
      rw [moves_cons_simple (Bool.not_eq_true _ ▸ hc)] at h
      exact ⟨hholds c x, ih h⟩

theorem contained_iff : Contained selector ↔ sidesteps (moves selector) = false := by
  rw [← forall_below_iff]
  constructor
  · intro h ν t a b hwalk
    exact h ν ⟨t, fun _ _ ↦ True⟩ a b (matchesFrom_of_walk (fun _ _ ↦ trivial) hwalk)
  · exact fun h ν d leader x hmatch ↦ h ν d.toForest leader x (walk_of_matchesFrom hmatch)

theorem matchesFrom_simple (hk : ∀ c ∈ k, c.isCombinator = false) (h : MatchesFrom d leader k x) :
    x = leader ∧ ∀ c ∈ k, d.holds c leader := by
  induction k with
  | nil => exact ⟨h, fun _ hmem ↦ absurd hmem List.not_mem_nil⟩
  | cons c k ih =>
    obtain ⟨hc, hk⟩ := List.forall_mem_cons.mp hk
    rw [MatchesFrom, hc, if_neg Bool.false_ne_true] at h
    obtain ⟨rfl, hrest⟩ := ih hk h.2
    exact ⟨rfl, List.forall_mem_cons.mpr ⟨h.1, hrest⟩⟩

theorem holds_of_matchesFrom (hk : ∀ c ∈ k, c.isCombinator = false)
    (h : MatchesFrom d leader (selector ++ k) x) : ∀ c ∈ k, d.holds c leader := by
  induction selector generalizing x with
  | nil => exact (matchesFrom_simple hk h).2
  | cons c selector ih =>
    rw [List.cons_append, MatchesFrom] at h
    split at h
    · obtain ⟨y, hy, -⟩ := h
      exact ih hy
    · exact ih h.2

end Matching

section Scoping

variable {boundary selector compiled run k : Selector}

theorem filterMap_moveOf_simple (hk : ∀ c ∈ k, c.isCombinator = false) : k.filterMap moveOf = [] :=
  List.filterMap_eq_nil_iff.mpr (fun c hc ↦ moveOf_eq_none (hk c hc))

theorem filterMap_reverseCompounds (hrun : ∀ c ∈ run, c.isCombinator = false)
    (components : List Component) :
    (reverseCompounds run components).filterMap moveOf = components.filterMap moveOf := by
  induction components generalizing run with
  | nil => exact filterMap_moveOf_simple hrun
  | cons c components ih =>
    unfold reverseCompounds
    split
    · rename_i hc
      rw [List.filterMap_append, filterMap_moveOf_simple hrun, List.nil_append, List.filterMap_cons,
        List.filterMap_cons, ih (fun _ h ↦ absurd h List.not_mem_nil)]
    · rename_i hc
      rw [Bool.not_eq_true] at hc
      rw [List.filterMap_cons_none (moveOf_eq_none hc)]
      exact ih (List.forall_mem_cons.mpr ⟨hc, hrun⟩)

theorem moves_from (components : List Component) :
    moves (Selector.from components) = components.filterMap moveOf := by
  unfold moves Selector.from
  rw [filterMap_reverseCompounds (fun _ h ↦ absurd h List.not_mem_nil), List.filterMap_reverse,
    List.reverse_reverse]

theorem reverseCompounds_simple (hk : ∀ c ∈ k, c.isCombinator = false) :
    reverseCompounds run k = k.reverse ++ run := by
  induction k generalizing run with
  | nil => rfl
  | cons c k ih =>
    obtain ⟨hc, hk⟩ := List.forall_mem_cons.mp hk
    rw [reverseCompounds, hc, if_neg Bool.false_ne_true, ih hk, List.reverse_cons, List.append_assoc]
    rfl

/-- The last compound of the input goes into the last compound of the result. -/
theorem reverseCompounds_append (hrun : ∀ c ∈ run, c.isCombinator = false)
    (hk : ∀ c ∈ k, c.isCombinator = false) (components : List Component) :
    ∃ first last, reverseCompounds run (components ++ k) = first ++ last ∧
      (∀ c ∈ last, c.isCombinator = false) ∧ k ⊆ last := by
  induction components generalizing run with
  | nil =>
    refine ⟨[], k.reverse ++ run, reverseCompounds_simple hk, ?_, fun c hc ↦ ?_⟩
    · exact List.forall_mem_append.mpr ⟨fun c hc ↦ hk c (List.mem_reverse.mp hc), hrun⟩
    · exact List.mem_append_left _ (List.mem_reverse.mpr hc)
  | cons c components ih =>
    rw [List.cons_append, reverseCompounds]
    split
    · obtain ⟨first, last, heq, hlast, hsub⟩ := ih (fun _ h ↦ absurd h List.not_mem_nil)
      exact ⟨run ++ c :: first, last, by rw [heq, List.append_assoc, List.cons_append], hlast, hsub⟩
    · rename_i hc
      rw [Bool.not_eq_true] at hc
      exact ih (List.forall_mem_cons.mpr ⟨hc, hrun⟩)

theorem led_from (hboundary : ∀ c ∈ boundary, c.isCombinator = false) (components : List Component) :
    Led boundary (Selector.from (boundary ++ components)) := by
  intro ν d leader x h c hc
  unfold Selector.from at h
  rw [List.reverse_append] at h
  have hreversed : ∀ c ∈ boundary.reverse, c.isCombinator = false :=
    fun c hc ↦ hboundary c (List.mem_reverse.mp hc)
  obtain ⟨first, last, heq, hlast, hsub⟩ := reverseCompounds_append
    (fun _ h ↦ absurd h List.not_mem_nil) hreversed components.reverse
  rw [heq] at h
  exact holds_of_matchesFrom hlast h c (hsub (List.mem_reverse.mpr hc))

/-- The leftmost compound. -/
def leading (selector : Selector) : Selector :=
  (selector.reverse.takeWhile (fun c ↦ ¬c.isCombinator)).reverse

/-- What stands in front of the leftmost compound in the order of matching. -/
def earlier (selector : Selector) : Selector :=
  (selector.reverse.dropWhile (fun c ↦ ¬c.isCombinator)).reverse

/-- A document root leaves something of its compound behind, and a sibling comes next. -/
def escapes (selector : Selector) : Bool :=
  (leading selector).any isDocumentRoot ∧ (leading selector).eraseP isDocumentRoot ≠ [] ∧
    sidesteps (moves selector) = true

theorem mapRoots_needsDescendant (fuel : ℕ) (components : Selector) (mappedRoot : Bool) :
    (mapRoots fuel components mappedRoot true).2.2 = true := by
  induction fuel generalizing components mappedRoot with
  | zero => rfl
  | succ fuel ih =>
    unfold mapRoots
    dsimp only
    split
    · split
      · exact ih _ _
      · rfl
    · rfl

theorem leading_simple (selector : Selector) : ∀ c ∈ leading selector, c.isCombinator = false := by
  intro c hc
  have hsimple := List.mem_takeWhile_imp (List.mem_reverse.mp hc)
  rwa [decide_eq_true_iff, Bool.not_eq_true] at hsimple

theorem moves_append_simple (hk : ∀ c ∈ k, c.isCombinator = false) :
    moves (selector ++ k) = moves selector := by
  unfold moves
  rw [List.filterMap_append, filterMap_moveOf_simple hk, List.append_nil]

theorem mapRoots_succ (fuel : ℕ) (selector : Selector) (mappedRoot needsDescendant : Bool) :
    mapRoots (fuel + 1) selector mappedRoot needsDescendant =
      if (leading selector).any isDocumentRoot then
        if (leading selector).eraseP isDocumentRoot = [] ∧ earlier selector ≠ [] then
          mapRoots fuel (earlier selector).dropLast true true
        else (earlier selector ++ (leading selector).eraseP isDocumentRoot, true, needsDescendant)
      else (selector, mappedRoot, needsDescendant) := rfl

theorem earlier_append_leading (selector : Selector) :
    earlier selector ++ leading selector = selector := by
  unfold earlier leading
  rw [← List.reverse_append, List.takeWhile_append_dropWhile, List.reverse_reverse]

theorem moves_earlier (selector : Selector) : moves (earlier selector) = moves selector := by
  have h : moves (earlier selector ++ leading selector) = moves (earlier selector) :=
    moves_append_simple (leading_simple selector)
  rw [earlier_append_leading] at h
  exact h.symm

/-- The moves in front of what is left of a selector, and its own. -/
theorem sidesteps_mapRoots (fuel : ℕ) (selector : Selector) :
    let (components, mappedRoot, needsDescendant) := mapRoots (fuel + 1) selector false false
    sidesteps ((if ¬mappedRoot ∨ needsDescendant then [Component.descendant] else []).filterMap moveOf ++
      moves components) = escapes selector := by
  have hdescendant : [Component.descendant].filterMap moveOf = [Move.descendant] := rfl
  unfold escapes
  rw [mapRoots_succ]
  cases hroot : (leading selector).any isDocumentRoot with
  | false => rfl
  | true =>
    rw [if_pos rfl]
    by_cases hempty : (leading selector).eraseP isDocumentRoot = []
    · by_cases hearlier : earlier selector = []
      · rw [if_neg (fun h ↦ h.2 hearlier), hempty, hearlier]
        rfl
      · rw [if_pos ⟨hempty, hearlier⟩]
        have hneeds := mapRoots_needsDescendant fuel (earlier selector).dropLast true
        revert hneeds
        generalize mapRoots fuel (earlier selector).dropLast true true = result
        obtain ⟨components, mappedRoot, needsDescendant⟩ := result
        intro hneeds
        dsimp only at hneeds ⊢
        rw [hneeds, if_pos (.inr rfl), hempty]
        rfl
    · rw [if_neg (fun h ↦ hempty h.1)]
      have hsimple : ∀ c ∈ (leading selector).eraseP isDocumentRoot, c.isCombinator = false :=
        fun c hc ↦ leading_simple selector c (List.mem_of_mem_eraseP hc)
      dsimp only
      rw [moves_append_simple hsimple, moves_earlier, if_neg (by decide)]
      cases hsidesteps : sidesteps (moves selector) with
      | false =>
        rw [decide_eq_false (fun h ↦ Bool.false_ne_true h.2.2)]
        exact hsidesteps
      | true =>
        rw [decide_eq_true ⟨rfl, hempty, rfl⟩]
        exact hsidesteps

theorem scopeSelector_eq_ok (h : scopeSelector boundary selector = .ok compiled) :
    ∃ components, compiled = Selector.from (boundary ++ components) ∧
      sidesteps (components.filterMap moveOf) = escapes selector := by
  obtain ⟨_, -, h⟩ := bind_eq_ok.mp h
  have hsidesteps := sidesteps_mapRoots selector.length selector
  revert h hsidesteps
  generalize mapRoots (selector.length + 1) selector false false = result
  obtain ⟨components, mappedRoot, needsDescendant⟩ := result
  intro h hsidesteps
  obtain ⟨_, -, h⟩ := bind_eq_ok.mp h
  obtain rfl := pure_eq_ok.mp h
  refine ⟨_, by rw [List.append_assoc], ?_⟩
  rw [List.filterMap_append, filterMap_reverseCompounds (fun _ h ↦ absurd h List.not_mem_nil),
    List.filterMap_reverse]
  exact hsidesteps

/-- A compiled selector matches under the surface unless its authored selector escapes. -/
theorem contained_scopeSelector (hboundary : ∀ c ∈ boundary, c.isCombinator = false)
    (h : scopeSelector boundary selector = .ok compiled) :
    Led boundary compiled ∧ (Contained compiled ↔ escapes selector = false) := by
  obtain ⟨components, rfl, hsidesteps⟩ := scopeSelector_eq_ok h
  refine ⟨led_from hboundary components, ?_⟩
  rw [contained_iff, moves_from, List.filterMap_append, filterMap_moveOf_simple hboundary,
    List.nil_append, hsidesteps]

end Scoping

section Rules

mutual

def selectorsOfRule : CssRule → List Selector
  | .style selectors _ rules => selectors ++ selectorsOf rules
  | .media _ rules => selectorsOf rules
  | .supports _ rules => selectorsOf rules
  | .container _ rules => selectorsOf rules
  | .fontFace _ => []
  | .keyframes _ _ => []
  | .other _ => []

/-- The selectors of a stylesheet, inside its at-rules as well. -/
def selectorsOf : List CssRule → List Selector
  | [] => []
  | rule :: rules => selectorsOfRule rule ++ selectorsOf rules

end

variable {limits : CssLimits} {boundary : Selector} {caseFold : String → String} {namespace_ : String}
  {names names' : Keyed String String} {v : AssetUrlVisitor}

def Scopes (boundary authored compiled : Selector) : Prop :=
  scopeSelector boundary authored = .ok compiled

theorem scopes_of_mapM {selectors selectors' : List Selector}
    (h : selectors.mapM (scopeSelector boundary) = .ok selectors') :
    List.Forall₂ (Scopes boundary) selectors selectors' := by
  induction selectors generalizing selectors' with
  | nil =>
    obtain rfl := pure_eq_ok.mp h
    exact .nil
  | cons selector selectors ih =>
    rw [List.mapM_cons] at h
    obtain ⟨compiled, hcompiled, h⟩ := bind_eq_ok.mp h
    obtain ⟨rest, hrest, h⟩ := bind_eq_ok.mp h
    obtain rfl := pure_eq_ok.mp h
    exact .cons hcompiled (ih hrest)

mutual

theorem validateRule_selectors {depth count count' : ℕ} {topLevel : Bool} :
    ∀ {rule rule' : CssRule},
      validateRule limits boundary depth topLevel count rule = .ok (rule', count') →
        List.Forall₂ (Scopes boundary) (selectorsOfRule rule) (selectorsOfRule rule')
  | .style _ _ rules, _, h => by
    obtain ⟨_, -, h⟩ := bind_eq_ok.mp h
    obtain ⟨_, hempty, h⟩ := bind_eq_ok.mp h
    obtain ⟨selectors, hselectors, h⟩ := bind_eq_ok.mp h
    obtain ⟨rfl, -⟩ := Prod.mk.inj (pure_eq_ok.mp h)
    rw [require_eq_ok, List.isEmpty_iff] at hempty
    rw [hempty, selectorsOfRule, selectorsOfRule, selectorsOf, List.append_nil, List.append_nil]
    exact scopes_of_mapM hselectors
  | .media _ _, _, h => by
    obtain ⟨_, -, h⟩ := bind_eq_ok.mp h
    obtain ⟨_, -, h⟩ := bind_eq_ok.mp h
    obtain ⟨⟨rules, _⟩, hrules, h⟩ := bind_eq_ok.mp h
    obtain ⟨rfl, -⟩ := Prod.mk.inj (pure_eq_ok.mp h)
    exact validateRuleList_selectors hrules
  | .supports _ _, _, h => by
    obtain ⟨_, -, h⟩ := bind_eq_ok.mp h
    obtain ⟨_, -, h⟩ := bind_eq_ok.mp h
    obtain ⟨⟨rules, _⟩, hrules, h⟩ := bind_eq_ok.mp h
    obtain ⟨rfl, -⟩ := Prod.mk.inj (pure_eq_ok.mp h)
    exact validateRuleList_selectors hrules
  | .container _ _, _, h => by
    obtain ⟨_, -, h⟩ := bind_eq_ok.mp h
    obtain ⟨_, -, h⟩ := bind_eq_ok.mp h
    obtain ⟨⟨rules, _⟩, hrules, h⟩ := bind_eq_ok.mp h
    obtain ⟨rfl, -⟩ := Prod.mk.inj (pure_eq_ok.mp h)
    exact validateRuleList_selectors hrules
  | .fontFace _, _, h => by
    obtain ⟨_, -, h⟩ := bind_eq_ok.mp h
    obtain ⟨_, -, h⟩ := bind_eq_ok.mp h
    obtain ⟨rfl, -⟩ := Prod.mk.inj (pure_eq_ok.mp h)
    exact .nil
  | .keyframes _ _, _, h => by
    obtain ⟨_, -, h⟩ := bind_eq_ok.mp h
    obtain ⟨_, -, h⟩ := bind_eq_ok.mp h
    obtain ⟨rfl, -⟩ := Prod.mk.inj (pure_eq_ok.mp h)
    exact .nil
  | .other _, _, h => by
    obtain ⟨_, -, h⟩ := bind_eq_ok.mp h
    cases h

theorem validateRuleList_selectors {depth count count' : ℕ} {topLevel : Bool} :
    ∀ {rules rules' : List CssRule},
      validateRuleList limits boundary depth topLevel count rules = .ok (rules', count') →
        List.Forall₂ (Scopes boundary) (selectorsOf rules) (selectorsOf rules')
  | [], _, h => by
    obtain ⟨rfl, -⟩ := Prod.mk.inj (Except.ok.inj h)
    exact .nil
  | _ :: _, _, h => by
    obtain ⟨⟨rule, _⟩, hrule, h⟩ := bind_eq_ok.mp h
    obtain ⟨⟨rules, _⟩, hrules, h⟩ := bind_eq_ok.mp h
    obtain ⟨rfl, -⟩ := Prod.mk.inj (pure_eq_ok.mp h)
    exact List.rel_append (validateRule_selectors hrule) (validateRuleList_selectors hrules)

end

mutual

theorem visitRule_selectors : ∀ {rule rule' : CssRule}, visitRule v rule = .ok rule' →
    selectorsOfRule rule' = selectorsOfRule rule
  | .style _ _ _, _, h => by
    obtain ⟨_, -, h⟩ := bind_eq_ok.mp h
    obtain ⟨rules, hrules, h⟩ := bind_eq_ok.mp h
    obtain rfl := pure_eq_ok.mp h
    rw [selectorsOfRule, selectorsOfRule, visitRules_selectors hrules]
  | .media _ _, _, h => by
    obtain ⟨rules, hrules, h⟩ := bind_eq_ok.mp h
    obtain rfl := pure_eq_ok.mp h
    exact visitRules_selectors hrules
  | .supports _ _, _, h => by
    obtain ⟨rules, hrules, h⟩ := bind_eq_ok.mp h
    obtain rfl := pure_eq_ok.mp h
    exact visitRules_selectors hrules
  | .container _ _, _, h => by
    obtain ⟨_, -, h⟩ := bind_eq_ok.mp h
    obtain ⟨rules, hrules, h⟩ := bind_eq_ok.mp h
    obtain rfl := pure_eq_ok.mp h
    exact visitRules_selectors hrules
  | .fontFace _, _, h => by
    obtain ⟨_, -, h⟩ := bind_eq_ok.mp h
    obtain rfl := pure_eq_ok.mp h
    rfl
  | .keyframes _ _, _, h => by
    obtain ⟨_, -, h⟩ := bind_eq_ok.mp h
    obtain rfl := pure_eq_ok.mp h
    rfl
  | .other _, _, h => by
    obtain rfl := Except.ok.inj h
    rfl

theorem visitRules_selectors : ∀ {rules rules' : List CssRule}, visitRules v rules = .ok rules' →
    selectorsOf rules' = selectorsOf rules
  | [], _, h => by
    obtain rfl := Except.ok.inj h
    rfl
  | _ :: _, _, h => by
    obtain ⟨rule, hrule, h⟩ := bind_eq_ok.mp h
    obtain ⟨rules, hrules, h⟩ := bind_eq_ok.mp h
    obtain rfl := pure_eq_ok.mp h
    rw [selectorsOf, selectorsOf, visitRule_selectors hrule, visitRules_selectors hrules]

end

theorem namespaceFonts_selectors {rules rules' : List CssRule}
    (h : namespaceFonts caseFold namespace_ rules names = .ok (rules', names')) :
    selectorsOf rules' = selectorsOf rules := by
  induction rules generalizing rules' names names' with
  | nil =>
    obtain ⟨rfl, -⟩ := Prod.mk.inj (Except.ok.inj h)
    rfl
  | cons rule rules ih =>
    cases rule with
    | fontFace properties =>
      obtain ⟨⟨properties', _, _⟩, -, h⟩ := bind_eq_ok.mp h
      obtain ⟨_, -, h⟩ := bind_eq_ok.mp h
      obtain ⟨⟨rest, _⟩, hrest, h⟩ := bind_eq_ok.mp h
      obtain ⟨rfl, -⟩ := Prod.mk.inj (pure_eq_ok.mp h)
      rw [selectorsOf, selectorsOf, selectorsOfRule, selectorsOfRule, ih hrest]
    | _ =>
      obtain ⟨⟨rest, _⟩, hrest, h⟩ := bind_eq_ok.mp h
      obtain ⟨rfl, -⟩ := Prod.mk.inj (pure_eq_ok.mp h)
      rw [selectorsOf, selectorsOf, ih hrest]

theorem namespaceKeyframes_selectors {rules rules' : List CssRule}
    (h : namespaceKeyframes namespace_ rules names = .ok (rules', names')) :
    selectorsOf rules' = selectorsOf rules := by
  induction rules generalizing rules' names names' with
  | nil =>
    obtain ⟨rfl, -⟩ := Prod.mk.inj (Except.ok.inj h)
    rfl
  | cons rule rules ih =>
    cases rule with
    | keyframes name keyframes =>
      obtain ⟨_, -, h⟩ := bind_eq_ok.mp h
      obtain ⟨⟨rest, _⟩, hrest, h⟩ := bind_eq_ok.mp h
      obtain ⟨rfl, -⟩ := Prod.mk.inj (pure_eq_ok.mp h)
      rw [selectorsOf, selectorsOf, selectorsOfRule, selectorsOfRule, ih hrest]
    | _ =>
      obtain ⟨⟨rest, _⟩, hrest, h⟩ := bind_eq_ok.mp h
      obtain ⟨rfl, -⟩ := Prod.mk.inj (pure_eq_ok.mp h)
      rw [selectorsOf, selectorsOf, ih hrest]

end Rules

section Compiled

variable {css : Lightningcss} {caseFold : String → String} {limits : CssLimits}
  {sourceDigest : ContentHash} {assetUrls : Keyed String String}

/-- A compiled theme matches nothing outside of its surface, unless an authored selector makes a
sidestep from a document root. -/
theorem contained_compileRules {boundary : Selector} {others : List Selector} {declarations : List Property}
    {nested authored compiled : List CssRule} (hboundary : ∀ c ∈ boundary, c.isCombinator = false)
    (h : compileRules css caseFold limits sourceDigest assetUrls
      (.style (boundary :: others) declarations nested :: authored) = .ok compiled) :
    List.Forall₂ (fun selector compiled ↦ Led boundary compiled ∧
        (Contained compiled ↔ escapes selector = false))
      (selectorsOf authored) (selectorsOf compiled) := by
  obtain ⟨boundary', hfirst, h⟩ := bind_eq_ok.mp h
  obtain rfl := Option.some.inj (orError_eq_ok.mp hfirst)
  obtain ⟨validated, hvalidated, h⟩ := bind_eq_ok.mp h
  obtain ⟨⟨fontRules, fonts⟩, hfonts, h⟩ := bind_eq_ok.mp h
  obtain ⟨⟨keyframeRules, keyframes⟩, hkeyframes, h⟩ := bind_eq_ok.mp h
  rw [visitRules_selectors h, namespaceKeyframes_selectors hkeyframes, namespaceFonts_selectors hfonts]
  obtain ⟨⟨rules, count⟩, hrules, rfl⟩ := map_eq_ok.mp hvalidated
  exact (validateRuleList_selectors hrules).imp
    (fun _ _ hscopes ↦ contained_scopeSelector hboundary hscopes)

/-- Three authored rules: `.card ~ p`, `body .card` and `body.theme ~ p`. -/
def sidestepRules : List CssRule :=
  [.style [[.localName "p", .combinator "~", .other ".card"], [.other ".card", .descendant, .localName "body"]]
      [] [],
    .media "print" [.style [[.localName "p", .combinator "~", .localName "body", .other ".theme"]] [] []]]

def sidestepCompiled : List CssRule :=
  [.style [[.localName "p", .combinator "~", .other ".card", .descendant] ++ boundarySelector,
      [.other ".card", .descendant] ++ boundarySelector] [] [],
    .media "print" [.style [[.localName "p", .combinator "~"] ++ boundarySelector ++ [.other ".theme"]]
      [] []]]

theorem compileRules_sidestep :
    compileRules heroCss id sampleLimits (.replicate 7) ∅ (boundaryRule :: sidestepRules) =
      .ok sidestepCompiled := rfl

theorem contained_compileRules_sidestep :
    List.Forall₂ (fun selector compiled ↦ Led boundarySelector compiled ∧
        (Contained compiled ↔ escapes selector = false))
      (selectorsOf sidestepRules) (selectorsOf sidestepCompiled) ∧
    (selectorsOf sidestepRules).map escapes = [false, false, true] :=
  ⟨contained_compileRules (by decide) compileRules_sidestep, rfl⟩

end Compiled

end Jaunder.Host.CssIsolation
