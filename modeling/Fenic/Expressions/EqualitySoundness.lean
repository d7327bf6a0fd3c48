import Fenic.Expressions.Converter

/-!
# `Expressions.EqualitySoundness` — when equal expressions denote the same

`LogicalExpr.__eq__` is sound for a class when the hook of the class compares what the converter passes on. For most
classes it does, and exactly (`comparesAll`). `countDistinct` and `dateFormat` have an attribute that is not compared as it
stands, but the converter does not pass that on either. The other classes are those of `agree`: two expressions that
compare equal denote the same under every engine exactly when they agree on these (`denote_eq_iff`).
-/

namespace Fenic

namespace Expressions

variable {Func Model Series : Type}

/-! ## Literals -/

mutual

/-- Literals that compare equal and become the same constant are the same: the zone of a moment is compared. -/
theorem Literal.eq_of_constant : ∀ l l' : Literal, l.eq l' = true → l.constant = l'.constant → l = l'
  | .timestamp utc aware, l', h, hconstant => by
    cases l' <;> simp only [Literal.eq, Bool.false_eq_true, Bool.and_eq_true, beq_iff_eq] at h
    rw [h.1, h.2]
  | .array t items, l', h, hconstant => by
    cases l' <;> simp only [Literal.eq, Bool.false_eq_true, Bool.and_eq_true, beq_iff_eq] at h
    injection hconstant with ht hitems
    rw [ht, Literal.eqItems_of_constant items _ h.2 hitems]
  | .struct fields, l', h, hconstant => by
    cases l' <;> simp only [Literal.eq, Bool.false_eq_true] at h
    injection hconstant with hfields
    rw [Literal.eqFields_of_constant fields _ h hfields]
  | .null _, l', h, hconstant | .string _, l', h, hconstant | .integer _, l', h, hconstant | .float _, l', h, hconstant |
    .double _, l', h, hconstant | .boolean _, l', h, hconstant | .date _, l', h, hconstant => by
    cases l' <;> simp only [Literal.eq, Bool.false_eq_true] at h
    exact hconstant

theorem Literal.eqItems_of_constant : ∀ ls ls' : List Literal, Literal.eqItems ls ls' = true →
    Literal.constantItems ls = Literal.constantItems ls' → ls = ls'
  | [], [], _, _ => rfl
  | [], _ :: _, h, _ => by cases h
  | _ :: _, [], h, _ => by cases h
  | l :: ls, l' :: ls', h, hconstant => by
    simp only [Literal.eqItems, Bool.and_eq_true] at h
    injection hconstant with hl hls
    rw [Literal.eq_of_constant l l' h.1 hl, Literal.eqItems_of_constant ls ls' h.2 hls]

theorem Literal.eqFields_of_constant : ∀ fields fields' : List (String × Literal),
    Literal.eqFields fields fields' = true → Literal.constantFields fields = Literal.constantFields fields' →
      fields = fields'
  | [], [], _, _ => rfl
  | [], _ :: _, h, _ => by cases h
  | _ :: _, [], h, _ => by cases h
  | (name, l) :: fields, (name', l') :: fields', h, hconstant => by
    simp only [Literal.eqFields, Bool.and_eq_true, beq_iff_eq] at h
    injection hconstant with hfield hfields
    injection hfield with hname hl
    rw [hname, Literal.eq_of_constant l l' h.1.2 hl, Literal.eqFields_of_constant fields fields' h.2 hfields]

end

/-- What the converter asks about a literal does not depend on the sign of a zero. -/
theorem Literal.view_eq {l l' : Literal} (h : l.eq l' = true) :
    (ExprHead.literal l : ExprHead Func Model Series).view = (ExprHead.literal l' : ExprHead Func Model Series).view := by
  cases l with
  | null _ | integer _ =>
    cases l' <;> simp only [Literal.eq, Bool.false_eq_true, beq_iff_eq] at h
    rw [h]
  | _ =>
    cases l' <;> simp only [Literal.eq, Bool.false_eq_true] at h
    rfl

/-! ## One head -/

namespace ExprHead

/-- The hook of the class compares all attributes of the class, and exactly. -/
def comparesAll : ExprHead Func Model Series → Bool
  | .literal _ => false
  | .seriesLiteral _ => false
  | .countDistinct _ => false
  | .toDate _ => false
  | .toTimestamp _ => false
  | .now _ => false
  | .dateAdd _ => false
  | .dateFormat _ => false
  | .embeddingSimilarity _ _ => false
  | .semanticMap .. => false
  | .semanticExtract .. => false
  | .semanticPred .. => false
  | _ => true

/-- Two heads of one class agree on what the converter passes on and the hook does not compare, or compares more
    coarsely. -/
def agree : ExprHead Func Model Series → ExprHead Func Model Series → Prop
  -- equal literals may differ in the sign of a zero
  | .literal l, .literal l' => l = l'
  | .seriesLiteral series, .seriesLiteral series' => series = series'
  | .toDate format, .toDate format' => toDateFormat format = toDateFormat format'
  | .toTimestamp format, .toTimestamp format' => toTimestampFormat format = toTimestampFormat format'
  | .now asDate, .now asDate' => asDate = asDate'
  | .dateAdd sub, .dateAdd sub' => sub = sub'
  | .embeddingSimilarity _ query, .embeddingSimilarity _ query' => query = query'
  -- equal fingerprints leave out the annotations and the order of a schema
  | .semanticMap _ _ _ _ _ responseFormat examples _, .semanticMap _ _ _ _ _ responseFormat' examples' _ =>
    responseFormat = responseFormat' ∧ examples = examples'
  | .semanticExtract _ _ responseFormat _ _, .semanticExtract _ _ responseFormat' _ _ => responseFormat = responseFormat'
  -- equal examples may hold `1` and `True`
  | .semanticPred _ _ _ _ examples _, .semanticPred _ _ _ _ examples' _ => examples = examples'
  | _, _ => True

theorem agree_self {head : ExprHead Func Model Series} (hall : head.comparesAll = true) : head.agree head := by
  cases head with
  | semanticMap => cases hall
  | _ => trivial

/-- What the hooks leave open about two heads that compare equal. -/
inductive Similar : ExprHead Func Model Series → ExprHead Func Model Series → Prop
  | same {head} (hall : head.comparesAll = true) : Similar head head
  | literal {l l' : Literal} (h : l.eq l' = true) : Similar (.literal l) (.literal l')
  | seriesLiteral {series series'} : Similar (.seriesLiteral series) (.seriesLiteral series')
  | countDistinct {b b'} : Similar (.countDistinct b) (.countDistinct b')
  | toDate {format format'} : Similar (.toDate format) (.toDate format')
  | toTimestamp {format format'} : Similar (.toTimestamp format) (.toTimestamp format')
  | now {asDate asDate'} : Similar (.now asDate) (.now asDate')
  | dateAdd {sub sub'} : Similar (.dateAdd sub) (.dateAdd sub')
  | dateFormat {format format'} (h : javaLikeToChrono format = javaLikeToChrono format') :
      Similar (.dateFormat format) (.dateFormat format')
  | embeddingSimilarity {metric query query'} :
      Similar (.embeddingSimilarity metric query) (.embeddingSimilarity metric query')
  | semanticMap {template strict maxTokens temperature modelAlias responseFormat responseFormat' examples examples'
      requestTimeout} :
      Similar (.semanticMap template strict maxTokens temperature modelAlias responseFormat examples requestTimeout)
        (.semanticMap template strict maxTokens temperature modelAlias responseFormat' examples' requestTimeout)
  | semanticExtract {maxTokens temperature responseFormat responseFormat' modelAlias requestTimeout} :
      Similar (.semanticExtract maxTokens temperature responseFormat modelAlias requestTimeout)
        (.semanticExtract maxTokens temperature responseFormat' modelAlias requestTimeout)
  | semanticPred {template strict temperature modelAlias examples examples' requestTimeout} :
      Similar (.semanticPred template strict temperature modelAlias examples requestTimeout)
        (.semanticPred template strict temperature modelAlias examples' requestTimeout)

/-- **What equality says about two heads.** -/
theorem similar_of_eqSpecific [DecidableEq Func] [DecidableEq Model] [BEq Series]
    {head head' : ExprHead Func Model Series} (h : head.eqSpecific head' = true) : Similar head head' := by
  unfold eqSpecific at h
  split at h
  all_goals try simp only [Bool.and_eq_true, beq_iff_eq] at h
  -- the classes that compare all
  all_goals try first | exact .same rfl | (simp only [h]; exact .same rfl)
  -- the others, in the order of `eqSpecific`
  · exact .literal h
  · exact .seriesLiteral
  · exact .countDistinct
  · exact .toDate
  · exact .toTimestamp
  · exact .now
  · exact .dateAdd
  · exact .dateFormat h
  · rw [h.1]
    exact .embeddingSimilarity
  · simp only [h]
    exact .semanticMap
  · simp only [h]
    exact .semanticExtract
  · simp only [h]
    exact .semanticPred
  -- two classes
  · cases h

theorem view_eq {head head' : ExprHead Func Model Series} (h : Similar head head') : head.view = head'.view := by
  cases h with
  | literal h => exact Literal.view_eq h
  | _ => rfl

/-- **Two heads that compare equal become the same call exactly when they agree.** -/
theorem convert_eq_iff {head head' : ExprHead Func Model Series} (h : Similar head head') (views : List ChildView) :
    head.convert views = head'.convert views ↔ head.agree head' := by
  cases h with
  | same hall => exact iff_of_true rfl (agree_self hall)
  | literal h =>
    simp only [convert, agree, Call.mk.injEq, List.cons.injEq, Argument.literal.injEq, true_and, and_true]
    exact ⟨Literal.eq_of_constant _ _ h, congrArg Literal.constant⟩
  | countDistinct => exact iff_of_true rfl trivial
  | @dateAdd sub sub' => cases sub <;> cases sub' <;> simp [convert, agree]
  | dateFormat h => exact iff_of_true (congrArg (fun format => Call.mk "dt.to_string" [.text format]) h) trivial
  | _ => simp [convert, agree]

end ExprHead

/-! ## Expressions -/

namespace LogicalExpr

mutual

/-- The heads of two expressions agree, position by position. -/
def Agree : LogicalExpr Func Model Series → LogicalExpr Func Model Series → Prop
  | .node head children, .node head' children' => head.agree head' ∧ AgreeChildren children children'

def AgreeChildren : List (LogicalExpr Func Model Series) → List (LogicalExpr Func Model Series) → Prop
  | e :: es, e' :: es' => Agree e e' ∧ AgreeChildren es es'
  | _, _ => True

end

variable [DecidableEq Func] [DecidableEq Model] [BEq Series]

/-- What the converter asks about the children does not tell equal children apart. -/
theorem views_eq {es es' : List (LogicalExpr Func Model Series)} (h : beqChildren es es' = true) :
    es.map (fun e => e.head.view) = es'.map (fun e => e.head.view) := by
  induction es generalizing es' with
  | nil =>
    cases es' with
    | nil => rfl
    | cons e' es' => cases h
  | cons e es ih =>
    cases es' with
    | nil => cases h
    | cons e' es' =>
      obtain ⟨head, children⟩ := e
      obtain ⟨head', children'⟩ := e'
      simp only [beqChildren, beq, Bool.and_eq_true] at h
      rw [List.map_cons, List.map_cons, ih h.2]
      exact congrArg (· :: _) (ExprHead.view_eq (ExprHead.similar_of_eqSpecific h.1.1.1))

mutual

/-- **Two expressions that compare equal are converted alike exactly when they agree.** -/
theorem convert_eq_iff : ∀ e e' : LogicalExpr Func Model Series, beq e e' = true →
    (convert e = convert e' ↔ Agree e e')
  | .node head children, .node head' children', h => by
    simp only [beq, Bool.and_eq_true] at h
    obtain ⟨⟨hhead, -⟩, hchildren⟩ := h
    simp only [convert, Agree, Term.app.injEq]
    rw [views_eq hchildren, ExprHead.convert_eq_iff (ExprHead.similar_of_eqSpecific hhead), convertChildren_eq_iff children children' hchildren]

theorem convertChildren_eq_iff : ∀ es es' : List (LogicalExpr Func Model Series), beqChildren es es' = true →
    (convertChildren es = convertChildren es' ↔ AgreeChildren es es')
  | [], [], _ => iff_of_true rfl trivial
  | [], _ :: _, h => by cases h
  | _ :: _, [], h => by cases h
  | e :: es, e' :: es', h => by
    simp only [beqChildren, Bool.and_eq_true] at h
    simp only [convertChildren, AgreeChildren, List.cons.injEq]
    rw [convert_eq_iff e e' h.1, convertChildren_eq_iff es es' h.2]

end

/-- **Two expressions that compare equal denote the same under every engine exactly when they agree.** -/
theorem denote_eq_iff (e e' : LogicalExpr Func Model Series) (h : beq e e' = true) :
    (∀ (Input Value : Type) (engine : Term.Interpretation (Call Func Model Series) Input Value),
      e.denote engine = e'.denote engine) ↔ Agree e e' := by
  rw [← convert_eq_iff e e' h]
  exact Term.eval_eq_iff

/-- `to_date(col("day"))` and `to_date(col("day"), "yyyy-MM-dd")` compare equal and denote the same: the format is the
    default one. -/
theorem toDate_default_denote :
    beq (node (.toDate none) [node (.column "day") []] : LogicalExpr Unit Unit Unit)
        (node (.toDate (some "yyyy-MM-dd")) [node (.column "day") []]) = true ∧
      ∀ (Input Value : Type) (engine : Term.Interpretation (Call Unit Unit Unit) Input Value),
        (node (.toDate none) [node (.column "day") []]).denote engine =
          (node (.toDate (some "yyyy-MM-dd")) [node (.column "day") []]).denote engine := by
  have hbeq : beq (node (.toDate none) [node (.column "day") []] : LogicalExpr Unit Unit Unit)
      (node (.toDate (some "yyyy-MM-dd")) [node (.column "day") []]) = true := by decide +kernel
  have hformat : toDateFormat none = toDateFormat (some "yyyy-MM-dd") := by decide +kernel
  refine ⟨hbeq, ?_⟩
  apply (denote_eq_iff _ _ hbeq).mpr
  exact ⟨hformat, ⟨trivial, trivial⟩, trivial⟩

/-- An engine whose rows hold a day, and which adds and subtracts days. -/
def dayEngine : Term.Interpretation (Call Unit Unit Unit) Int Int
  | ⟨"lit", [.literal (.integer n)]⟩, _, _ => n
  | ⟨"add_days", _⟩, [day, days], row => day row + days row
  | ⟨"sub_days", _⟩, [day, days], row => day row - days row
  | _, _, row => row

/-- `date_add(col("day"), 1)` and `date_sub(col("day"), 1)` compare equal. -/
theorem dateSub_not_denote : ¬ ∀ e e' : LogicalExpr Unit Unit Unit, beq e e' = true →
    ∀ (Input Value : Type) (engine : Term.Interpretation (Call Unit Unit Unit) Input Value),
      e.denote engine = e'.denote engine := by
  intro h
  have hsame := h (node (.dateAdd false) [node (.column "day") [], node (.literal (.integer 1)) []])
    (node (.dateAdd true) [node (.column "day") [], node (.literal (.integer 1)) []]) (by decide +kernel) Int Int dayEngine
  exact absurd (congrFun hsame 0) (by decide +kernel)

end LogicalExpr

end Expressions

end Fenic
