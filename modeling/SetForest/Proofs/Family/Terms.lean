import SetForest.Proofs.Family.Paths

namespace SetForest

/-!
# The laws of a distributive lattice

A term says which lattice operations lead from given indices to another.  Its value
is told by answers to the single operations (`Term.Evaluates`), and it can be found by
carrying out the operations from the left to the right (`Term.evaluate`).

Both sides of a law have the same value in a sound family, because the value of each
has just the paths that the law makes of the paths of its indices, and paths tell
grounded indices apart (`Family.Sound.laws`).  While nothing has been evicted, every
term over grounded indices has a value (`Family.Sound.exists_evaluate`).
-/

/-- A combination of indices by lattice operations. -/
inductive Term where
  | index (value : Index)
  | apply (operation : Operation) (first second : Term)
deriving DecidableEq, Repr

namespace Term

def union (first second : Term) : Term :=
  .apply .union first second

def intersection (first second : Term) : Term :=
  .apply .intersection first second

def difference (first second : Term) : Term :=
  .apply .difference first second

def empty : Term :=
  .index Index.empty

/-- The laws of a distributive lattice with a least element, and the law that an
intersection and a difference make up the whole. -/
def laws (a b c : Term) : List (Term × Term) :=
  [(a.union b, b.union a),
    (a.intersection b, b.intersection a),
    ((a.union b).union c, a.union (b.union c)),
    ((a.intersection b).intersection c, a.intersection (b.intersection c)),
    (a.union a, a),
    (a.intersection a, a),
    (a.union (a.intersection b), a),
    (a.intersection (a.union b), a),
    (a.intersection (b.union c), (a.intersection b).union (a.intersection c)),
    (a.union (b.intersection c), (a.union b).intersection (a.union c)),
    (a.union empty, a),
    (empty.union a, a),
    (a.intersection empty, empty),
    (empty.intersection a, empty),
    ((a.difference b).union (a.intersection b), a)]

/-- The value of a term, where `answers` tells the answers to single operations. -/
inductive Evaluates (answers : Operation → Index → Index → Index → Prop) : Term → Index → Prop where
  | index (value : Index) : Evaluates answers (.index value) value
  | apply {operation : Operation} {first second : Term} {x y r : Index}
      (firstValue : Evaluates answers first x) (secondValue : Evaluates answers second y)
      (answered : answers operation x y r) : Evaluates answers (.apply operation first second) r

/-- All indices in a term are of a kind. -/
def Over (kind : Index → Prop) : Term → Prop
  | .index value => kind value
  | .apply _ first second => first.Over kind ∧ second.Over kind

theorem Over.mono {kind weaker : Index → Prop} (weaken : ∀ index, kind index → weaker index)
    {term : Term} (termOver : term.Over kind) : term.Over weaker := by
  induction term with
  | index value => exact weaken value termOver
  | apply operation first second firstIh secondIh => exact ⟨firstIh termOver.1, secondIh termOver.2⟩

namespace Evaluates

variable {answers answersLater : Operation → Index → Index → Index → Prop} {term : Term} {r : Index}

theorem mono (kept : ∀ operation a b r, answers operation a b r → answersLater operation a b r)
    (value : term.Evaluates answers r) : term.Evaluates answersLater r := by
  induction value with
  | index value => exact .index value
  | apply _ _ answered firstIh secondIh => exact .apply firstIh secondIh (kept _ _ _ _ answered)

end Evaluates

/-! ## Values and paths -/

/-- Whether the value of a term may have a property that is bounded by operations. -/
def Possible (holds : Index → Prop) : Term → Prop
  | .index value => holds value
  | .apply .union first second => first.Possible holds ∨ second.Possible holds
  | .apply .intersection first second => first.Possible holds ∧ second.Possible holds
  | .apply .difference first _ => first.Possible holds

/-- Whether it has to have the property. -/
def Certain (holds : Index → Prop) : Term → Prop
  | .index value => holds value
  | .apply .union first second => first.Certain holds ∨ second.Certain holds
  | .apply .intersection first second => first.Certain holds ∧ second.Certain holds
  | .apply .difference first second => first.Certain holds ∧ ¬second.Possible holds

theorem Evaluates.bounds {answers : Operation → Index → Index → Index → Prop}
    {holds : Index → Prop} (bounds : ∀ operation a b r, answers operation a b r →
      operation.Bounds (holds a) (holds b) (holds r))
    {term : Term} {r : Index} (value : term.Evaluates answers r) :
    (term.Certain holds → holds r) ∧ (holds r → term.Possible holds) := by
  induction value with
  | index value => exact ⟨id, id⟩
  | @apply operation first second x y r _ _ answered firstIh secondIh =>
      have here := bounds operation x y r answered
      cases operation with
      | union =>
          exact ⟨fun certain => here.mpr (certain.imp firstIh.1 secondIh.1),
            fun has => (here.mp has).imp firstIh.2 secondIh.2⟩
      | intersection =>
          exact ⟨fun certain => here.mpr (certain.imp firstIh.1 secondIh.1),
            fun has => (here.mp has).imp firstIh.2 secondIh.2⟩
      | difference =>
          exact ⟨fun certain => here.1 (certain.imp firstIh.1 (mt secondIh.2)),
            fun has => firstIh.2 (here.2 has)⟩

/-- What one side of a law may have, the other has to have. -/
theorem certain_of_laws {a b c : Index} {law : Term × Term}
    (isLaw : law ∈ laws (.index a) (.index b) (.index c)) (holds : Index → Prop)
    (notEmpty : ¬holds Index.empty) :
    (law.1.Possible holds → law.2.Certain holds) ∧
      (law.2.Possible holds → law.1.Certain holds) := by
  simp only [laws, List.mem_cons, List.not_mem_nil, or_false] at isLaw
  rcases isLaw with rfl | rfl | rfl | rfl | rfl | rfl | rfl | rfl | rfl | rfl | rfl | rfl | rfl |
    rfl | rfl <;>
    simp only [union, intersection, difference, empty, Possible, Certain] <;> tauto

theorem over_of_laws {a b c : Index} {law : Term × Term}
    (isLaw : law ∈ laws (.index a) (.index b) (.index c)) {kind : Index → Prop} (ofA : kind a)
    (ofB : kind b) (ofC : kind c) (ofEmpty : kind Index.empty) :
    law.1.Over kind ∧ law.2.Over kind := by
  simp only [laws, List.mem_cons, List.not_mem_nil, or_false] at isLaw
  rcases isLaw with rfl | rfl | rfl | rfl | rfl | rfl | rfl | rfl | rfl | rfl | rfl | rfl | rfl |
    rfl | rfl <;>
    simp only [union, intersection, difference, empty, Over] <;> tauto

/-- Carry out the operations of a term in a family. -/
def evaluate {K : Type} [Key K] {n : Nat} (position : Fin n) : Term → FamilyM K n Index
  | .index value => return value
  | .apply operation first second => do
    let x ← first.evaluate position
    let y ← second.evaluate position
    Family.apply operation position x y

end Term

namespace Family

variable {K : Type} [Key K] {n : Nat} {family : Family K n} {position : Fin n}

namespace Sound

theorem grounded_empty (sound : family.Sound) (position : Fin n) :
    family.Grounded position Index.empty := by
  rw [grounded_eq]
  exact ⟨[], (sound.forestAt position).empty, nofun⟩

theorem grounded_of_evaluates (sound : family.Sound) {term : Term} {r : Index}
    (termOver : term.Over (family.Grounded position))
    (value : term.Evaluates (family.meaning position).Answers r) : family.Grounded position r := by
  induction value with
  | index value => exact termOver
  | apply _ _ answered firstIh secondIh =>
      exact sound.keeps_grounded position _ _ _ _ answered (firstIh termOver.1)
        (secondIh termOver.2)

/-- Both sides of a law have the same value. -/
theorem laws (sound : family.Sound) {a b c : Index} (aGrounded : family.Grounded position a)
    (bGrounded : family.Grounded position b) (cGrounded : family.Grounded position c)
    {law : Term × Term} (isLaw : law ∈ Term.laws (.index a) (.index b) (.index c)) {x y : Index}
    (first : law.1.Evaluates (family.meaning position).Answers x)
    (second : law.2.Evaluates (family.meaning position).Answers y) : x = y := by
  rcases Term.over_of_laws isLaw aGrounded bGrounded cGrounded (sound.grounded_empty position) with
    ⟨firstOver, secondOver⟩
  refine sound.ext_paths (sound.grounded_of_evaluates firstOver first)
    (sound.grounded_of_evaluates secondOver second) ?_
  ext path
  have atPath : ∀ operation a b r, (family.meaning position).Answers operation a b r →
      operation.Bounds (path ∈ family.paths position a) (path ∈ family.paths position b)
        (path ∈ family.paths position r) :=
    fun operation a b r answers => sound.traces position operation a b r answers path
  rcases Term.certain_of_laws isLaw (path ∈ family.paths position ·)
    (sound.not_mem_paths_empty position path) with ⟨forth, back⟩
  exact ⟨fun member => (second.bounds atPath).1 (forth ((first.bounds atPath).2 member)),
    fun member => (first.bounds atPath).1 (back ((second.bounds atPath).2 member))⟩

/-- A term over grounded indices has a value, and to find it leaves the family as
ready for further terms as it was. -/
theorem exists_evaluate (sound : family.Sound) (intact : family.Intact) {term : Term}
    (termOver : term.Over (family.Grounded position)) :
    ∃ r later, term.evaluate position family = (.ok r, later) ∧ later.Sound ∧ later.Intact ∧
      family.Extends later ∧ term.Evaluates (later.meaning position).Answers r := by
  induction term generalizing family with
  | index value => exact ⟨value, family, rfl, sound, intact, .refl family, .index value⟩
  | apply operation first second firstIh secondIh =>
      rcases firstIh sound intact termOver.1 with
        ⟨x, afterFirst, firstFound, soundFirst, intactFirst, extendsFirst, firstValue⟩
      rcases secondIh soundFirst intactFirst
        (termOver.2.mono fun _ grounded => grounded.mono extendsFirst) with
          ⟨y, afterSecond, secondFound, soundSecond, intactSecond, extendsSecond, secondValue⟩
      have firstGrounded := soundFirst.grounded_of_evaluates
        (termOver.1.mono fun _ grounded => grounded.mono extendsFirst) firstValue
      have secondGrounded := soundSecond.grounded_of_evaluates
        (termOver.2.mono fun _ grounded => grounded.mono (extendsFirst.trans extendsSecond))
        secondValue
      rcases soundSecond.exists_apply operation
        ((firstGrounded.mono extendsSecond).resident intactSecond)
        (secondGrounded.resident intactSecond) with ⟨r, later, answered⟩
      rcases soundSecond.contents_of_apply answered with
        ⟨soundLater, extendsLater, determines, -⟩
      have intactLater := soundSecond.intact_apply intactSecond operation position x y
      rw [answered] at intactLater
      refine ⟨r, later, ?_, soundLater, intactLater,
        (extendsFirst.trans extendsSecond).trans extendsLater, .apply ?_ ?_ determines.answers⟩
      · simp only [Term.evaluate, Action.bind_apply, firstFound, secondFound, answered]
      · exact firstValue.mono ((extendsSecond.trans extendsLater).meaning_le position).answers
      · exact secondValue.mono (extendsLater.meaning_le position).answers

/-- The two sides of a law can be evaluated one after the other and have the same value. -/
theorem evaluate_laws (sound : family.Sound) (intact : family.Intact) {a b c : Index}
    (aGrounded : family.Grounded position a) (bGrounded : family.Grounded position b)
    (cGrounded : family.Grounded position c) {law : Term × Term}
    (isLaw : law ∈ Term.laws (.index a) (.index b) (.index c)) :
    ∃ r later last, law.1.evaluate position family = (.ok r, later) ∧
      law.2.evaluate position later = (.ok r, last) := by
  rcases Term.over_of_laws isLaw aGrounded bGrounded cGrounded (sound.grounded_empty position) with
    ⟨firstOver, secondOver⟩
  rcases sound.exists_evaluate intact firstOver with
    ⟨r, later, firstFound, soundLater, intactLater, toLater, firstValue⟩
  rcases soundLater.exists_evaluate intactLater
    (secondOver.mono fun _ grounded => grounded.mono toLater) with
      ⟨r', last, secondFound, soundLast, -, toLast, secondValue⟩
  have toEnd := toLater.trans toLast
  have same : r = r' := soundLast.laws (aGrounded.mono toEnd) (bGrounded.mono toEnd)
    (cGrounded.mono toEnd) isLaw (firstValue.mono (toLast.meaning_le position).answers) secondValue
  subst r'
  exact ⟨r, later, last, firstFound, secondFound⟩

end Sound

end Family

end SetForest
