import Fenic.Expressions.Values
import Mathlib.Data.List.SplitBy

/-!
# `Expressions.LogicalExpr` — the expression classes and their equality

The date expressions take a pattern in the manner of Java and hand a chrono format to the engine.

An expression is a head, which is its class with the attributes that are not expressions, over its children. `beq` is
`LogicalExpr.__eq__`: the same class, the attributes that the hook `_eq_specific` of the class compares, and the children
pairwise. `eqSpecific` lists the hooks; some compare a child once more (`comparedAgain`), and some compare less than the
class has.

Callables, Pydantic classes and Polars series are opaque. Callables and classes are compared by identity, series by
`Series.equals`.
-/

namespace Fenic

namespace Expressions

/-- `_repeat_map`. -/
def repeatMap (ch : Char) (n : Nat) : List Char :=
  if ch = 'y' then (if 3 ≤ n then "%Y" else "%y").toList
  else if ch = 'M' then
    (if n = 1 then "%-m" else if n = 2 then "%m" else if n = 3 then "%b" else "%B").toList
  else if ch = 'd' then (if n = 1 then "%-d" else "%d").toList
  else if ch = 'H' then (if n = 1 then "%-H" else "%H").toList
  else if ch = 'h' then (if n = 1 then "%-I" else "%I").toList
  else if ch = 'm' then (if n = 1 then "%-M" else "%M").toList
  else if ch = 's' then (if n = 1 then "%-S" else "%S").toList
  else if ch = 'S' ∨ ch = 'f' then '%' :: ((toString n).toList ++ ['f'])
  else if ch = 'E' then (if 4 ≤ n then "%A" else "%a").toList
  else if ch = 'a' then "%p".toList
  else if ch = 'Z' then "%z".toList
  else if ch = 'X' then (if 3 ≤ n then "%:z" else "%z").toList
  else if ch = 'V' ∨ ch = 'z' then "%Z".toList
  else List.replicate n ch

/-- `_map_segment`. What is not a letter is copied, which is what `_repeat_map` does with a run of it. -/
def mapSegment (segment : List Char) : List Char :=
  (segment.splitBy (· == ·)).flatMap fun run =>
    match run with
    | [] => []
    | ch :: _ => repeatMap ch run.length

/-- The single quote. -/
def quote : Char := Char.ofNat 39

/-- A segment that is over. A percent sign of a quoted one is doubled. -/
def endSegment (quoted : Bool) (segment : List Char) : List Char :=
  if quoted then segment.flatMap fun ch => if ch = '%' then ['%', '%'] else [ch] else mapSegment segment

/-- `_java_like_to_chrono`, from within a segment. -/
def segmentToChrono (quoted : Bool) (segment : List Char) : List Char → List Char
  | [] => endSegment quoted segment
  | [ch] => if ch = quote then endSegment quoted segment else endSegment quoted (segment ++ [ch])
  | ch :: next :: chars =>
    if ch = quote then
      if quoted then
        -- a doubled quote stands for itself
        if next = quote then segmentToChrono true (segment ++ [quote]) chars
        else endSegment true segment ++ segmentToChrono false [] (next :: chars)
      else endSegment false segment ++ segmentToChrono true [] (next :: chars)
    else segmentToChrono quoted (segment ++ [ch]) (next :: chars)

/-- `_java_like_to_chrono`. -/
def javaLikeToChrono (pattern : String) : String :=
  String.ofList (segmentToChrono false [] pattern.toList)

example : javaLikeToChrono "MM-dd-yyyy" = "%m-%d-%Y" := by decide +kernel

/-- The format of a `DateConversionExpr`: an empty pattern is none. -/
def conversionFormat (default : String) : Option String → String
  | none => default
  | some pattern => if pattern = "" then default else javaLikeToChrono pattern

/-- The format of a `ToDateExpr`. -/
def toDateFormat (format : Option String) : String :=
  conversionFormat "%Y-%m-%d" format

/-- The format of a `ToTimestampExpr`. -/
def toTimestampFormat (format : Option String) : String :=
  conversionFormat "%Y-%m-%dT%H:%M:%S.%3f" format

/-! ## The expression classes and their equality -/

/-- The classes whose hook is that of the mixin `UnparameterizedExpr` and which have no attributes. -/
inductive UnparameterizedExpr where
  | index
  | array
  | struct
  | flatten
  | not
  | coalesce
  | isIn
  | greatest
  | least
  | when
  | otherwise
  | sum
  | avg
  | min
  | max
  | count
  | collectList
  | first
  | stddev
  | approxCountDistinct
  | sumDistinct
  | arrayLength
  | arrayDistinct
  | arrayContains
  | arrayMax
  | arrayMin
  | arraySort
  | arrayReverse
  | arrayRemove
  | arrayUnion
  | arrayIntersect
  | arrayExcept
  | arrayCompact
  | arrayRepeat
  | arraySlice
  | elementAt
  | arraysOverlap
  | countTokens
  | concat
  | contains
  | startsWith
  | endsWith
  | splitPart
  | strLength
  | byteLength
  | embeddingNormalize
  | jsonType
  | mdToJson
  deriving DecidableEq

/-- An expression class with its own attributes. -/
inductive ExprHead (Func Model Series : Type) where
  | column (name : String)
  | literal (literal : Literal)
  | seriesLiteral (series : Series)
  | unresolvedLiteral (dataType : DataType) (parameterName : String)
  | alias (name : String)
  | sort (ascending nullsLast : Bool)
  | unparameterized (cls : UnparameterizedExpr)
  | countDistinct (nullsNotDistinct : Bool)
  | udf (func : Func) (returnType : DataType)
  | asyncUdf (func : Func) (returnType : DataType) (maxConcurrency : Nat) (timeoutSeconds : Rat) (numRetries : Nat)
  | isNull (isNull : Bool)
  | cast (destType : DataType)
  | arithmetic (op : Operator)
  | boolean (op : Operator)
  | equalityComparison (op : Operator)
  | numericComparison (op : Operator)
  -- text
  | textract (template : String)
  | textChunk (configuration : TextChunkExprConfiguration)
  | recursiveTextChunk (configuration : RecursiveTextChunkExprConfiguration)
  | arrayJoin (delimiter : String)
  | containsAny (substrs : List String) (caseInsensitive : Bool)
  | rlike
  | like
  | ilike
  | tsParse (format : TranscriptFormatType)
  | regexpSplit (pattern : String) (limit : Int)
  | stringCasing (case : StringCasingType)
  | stripChars (side : StripCharsSide)
  | replace (literal : Bool)
  | jinja (template : String) (strict : Bool)
  | fuzzyRatio (method : FuzzySimilarityMethod)
  | fuzzyTokenSortRatio (method : FuzzySimilarityMethod)
  | fuzzyTokenSetRatio (method : FuzzySimilarityMethod)
  | regexpCount
  | regexpExtract (idx : Int)
  | regexpExtractAll
  | regexpInstr
  | regexpSubstr
  -- dates
  | year
  | month
  | day
  | hour
  | minute
  | second
  | milliSecond
  | toDate (format : Option String)
  | toTimestamp (format : Option String)
  | now (asDate : Bool)
  | dateTrunc (unit : DateTimeUnit)
  | dateAdd (sub : Bool)
  | timestampAdd (unit : DateTimeUnit)
  | dateFormat (format : String)
  | dateDiff
  | timestampDiff (unit : DateTimeUnit)
  | toUtcTimestamp (timezone : String)
  | fromUtcTimestamp (timezone : String)
  -- embeddings, JSON and Markdown
  /-- Without a query vector the other side is a child. -/
  | embeddingSimilarity (metric : SemanticSimilarityMetric) (query : Option (List PyFloat))
  | jq (query : String)
  | jsonContains (value : String)
  | mdGetCodeBlocks (languageFilter : Option String)
  | mdGenerateToc (maxLevel : Nat)
  | mdExtractHeaderChunks (headerLevel : Nat)
  -- semantic operators
  | semanticMap (template : String) (strict : Bool) (maxTokens : Nat) (temperature : Rat)
      (modelAlias : Option ResolvedModelAlias) (responseFormat : Option (ResolvedResponseFormat Model))
      (examples : Option (List (MapExample Model))) (requestTimeout : Option Rat)
  | semanticExtract (maxTokens : Nat) (temperature : Rat) (responseFormat : ResolvedResponseFormat Model)
      (modelAlias : Option ResolvedModelAlias) (requestTimeout : Option Rat)
  | semanticPred (template : String) (strict : Bool) (temperature : Rat) (modelAlias : Option ResolvedModelAlias)
      (examples : Option (List PredicateExample)) (requestTimeout : Option Rat)
  /-- The names of the group context are the variables of the instruction, in the order of the template. -/
  | semanticReduce (instruction : String) (maxTokens : Nat) (temperature : Rat) (modelAlias : Option ResolvedModelAlias)
      (requestTimeout : Option Rat)
  | semanticClassify (classes : List ResolvedClassDefinition) (temperature : Rat)
      (examples : Option (List ClassifyExample)) (modelAlias : Option ResolvedModelAlias) (requestTimeout : Option Rat)
  | analyzeSentiment (temperature : Rat) (modelAlias : Option ResolvedModelAlias) (requestTimeout : Option Rat)
  | embeddings (modelAlias : Option ResolvedModelAlias)
  | semanticSummarize (format : SummaryFormat) (temperature : Rat) (modelAlias : Option ResolvedModelAlias)
      (requestTimeout : Option Rat)
  | semanticParsePDF (modelAlias : Option ResolvedModelAlias) (pageSeparator : Option String) (describeImages : Bool)
      (maxOutputTokens : Option Nat) (requestTimeout : Option Rat)

/-- A logical expression. -/
inductive LogicalExpr (Func Model Series : Type) where
  | node (head : ExprHead Func Model Series) (children : List (LogicalExpr Func Model Series))

variable {Func Model Series : Type}

namespace LogicalExpr

def head : LogicalExpr Func Model Series → ExprHead Func Model Series
  | .node head _ => head

def children : LogicalExpr Func Model Series → List (LogicalExpr Func Model Series)
  | .node _ children => children

end LogicalExpr

/-! ## Equality -/

namespace ExprHead

/-- `type(self) is type(other)` and the attributes that `_eq_specific` compares. -/
def eqSpecific [DecidableEq Func] [DecidableEq Model] [BEq Series] :
    ExprHead Func Model Series → ExprHead Func Model Series → Bool
  | .column name, .column name' => name == name'
  | .literal l, .literal l' => l.eq l'
  | .seriesLiteral series, .seriesLiteral series' => series == series'
  | .unresolvedLiteral dataType name, .unresolvedLiteral dataType' name' => name == name' && dataType == dataType'
  | .alias name, .alias name' => name == name'
  | .sort ascending nullsLast, .sort ascending' nullsLast' => ascending == ascending' && nullsLast == nullsLast'
  | .unparameterized cls, .unparameterized cls' => cls == cls'
  -- `nulls_not_distinct` is not compared
  | .countDistinct _, .countDistinct _ => true
  | .udf func returnType, .udf func' returnType' => func == func' && returnType == returnType'
  | .asyncUdf func returnType maxConcurrency timeoutSeconds numRetries,
      .asyncUdf func' returnType' maxConcurrency' timeoutSeconds' numRetries' =>
      func == func' && returnType == returnType' && maxConcurrency == maxConcurrency' &&
        timeoutSeconds == timeoutSeconds' && numRetries == numRetries'
  | .isNull b, .isNull b' => b == b'
  | .cast destType, .cast destType' => destType == destType'
  | .arithmetic op, .arithmetic op' => op == op'
  | .boolean op, .boolean op' => op == op'
  | .equalityComparison op, .equalityComparison op' => op == op'
  | .numericComparison op, .numericComparison op' => op == op'
  | .textract template, .textract template' => template == template'
  | .textChunk configuration, .textChunk configuration' => configuration == configuration'
  | .recursiveTextChunk configuration, .recursiveTextChunk configuration' => configuration == configuration'
  | .arrayJoin delimiter, .arrayJoin delimiter' => delimiter == delimiter'
  | .containsAny substrs caseInsensitive, .containsAny substrs' caseInsensitive' =>
    substrs == substrs' && caseInsensitive == caseInsensitive'
  | .rlike, .rlike => true
  | .like, .like => true
  | .ilike, .ilike => true
  | .tsParse format, .tsParse format' => format == format'
  | .regexpSplit pattern limit, .regexpSplit pattern' limit' => pattern == pattern' && limit == limit'
  | .stringCasing case, .stringCasing case' => case == case'
  | .stripChars side, .stripChars side' => side == side'
  | .replace isLiteral, .replace isLiteral' => isLiteral == isLiteral'
  | .jinja template strict, .jinja template' strict' => template == template' && strict == strict'
  | .fuzzyRatio method, .fuzzyRatio method' => method == method'
  | .fuzzyTokenSortRatio method, .fuzzyTokenSortRatio method' => method == method'
  | .fuzzyTokenSetRatio method, .fuzzyTokenSetRatio method' => method == method'
  | .regexpCount, .regexpCount => true
  | .regexpExtract idx, .regexpExtract idx' => idx == idx'
  | .regexpExtractAll, .regexpExtractAll => true
  | .regexpInstr, .regexpInstr => true
  | .regexpSubstr, .regexpSubstr => true
  | .year, .year => true
  | .month, .month => true
  | .day, .day => true
  | .hour, .hour => true
  | .minute, .minute => true
  | .second, .second => true
  | .milliSecond, .milliSecond => true
  -- the formats are not compared
  | .toDate _, .toDate _ => true
  | .toTimestamp _, .toTimestamp _ => true
  -- `as_date` is not compared
  | .now _, .now _ => true
  | .dateTrunc unit, .dateTrunc unit' => unit == unit'
  -- `sub` is not compared
  | .dateAdd _, .dateAdd _ => true
  | .timestampAdd unit, .timestampAdd unit' => unit == unit'
  | .dateFormat format, .dateFormat format' => javaLikeToChrono format == javaLikeToChrono format'
  | .dateDiff, .dateDiff => true
  | .timestampDiff unit, .timestampDiff unit' => unit == unit'
  | .toUtcTimestamp timezone, .toUtcTimestamp timezone' => timezone == timezone'
  | .fromUtcTimestamp timezone, .fromUtcTimestamp timezone' => timezone == timezone'
  | .embeddingSimilarity metric query, .embeddingSimilarity metric' query' =>
    metric == metric' && optionEq vectorEq query query'
  | .jq query, .jq query' => query == query'
  | .jsonContains value, .jsonContains value' => value == value'
  | .mdGetCodeBlocks languageFilter, .mdGetCodeBlocks languageFilter' => languageFilter == languageFilter'
  | .mdGenerateToc maxLevel, .mdGenerateToc maxLevel' => maxLevel == maxLevel'
  | .mdExtractHeaderChunks headerLevel, .mdExtractHeaderChunks headerLevel' => headerLevel == headerLevel'
  | .semanticMap template strict maxTokens temperature modelAlias responseFormat examples requestTimeout,
      .semanticMap template' strict' maxTokens' temperature' modelAlias' responseFormat' examples' requestTimeout' =>
      maxTokens == maxTokens' && temperature == temperature' && modelAlias == modelAlias' &&
        optionEq ResolvedResponseFormat.eq responseFormat responseFormat' &&
        optionEq (collectionEq MapExample.eq) examples examples' && template == template' && strict == strict' &&
        requestTimeout == requestTimeout'
  | .semanticExtract maxTokens temperature responseFormat modelAlias requestTimeout,
      .semanticExtract maxTokens' temperature' responseFormat' modelAlias' requestTimeout' =>
      responseFormat.eq responseFormat' && maxTokens == maxTokens' && temperature == temperature' &&
        modelAlias == modelAlias' && requestTimeout == requestTimeout'
  | .semanticPred template strict temperature modelAlias examples requestTimeout,
      .semanticPred template' strict' temperature' modelAlias' examples' requestTimeout' =>
      temperature == temperature' && modelAlias == modelAlias' &&
        optionEq (collectionEq PredicateExample.eq) examples examples' && template == template' && strict == strict' &&
        requestTimeout == requestTimeout'
  | .semanticReduce instruction maxTokens temperature modelAlias requestTimeout,
      .semanticReduce instruction' maxTokens' temperature' modelAlias' requestTimeout' =>
      temperature == temperature' && modelAlias == modelAlias' && instruction == instruction' &&
        maxTokens == maxTokens' && requestTimeout == requestTimeout'
  | .semanticClassify classes temperature examples modelAlias requestTimeout,
      .semanticClassify classes' temperature' examples' modelAlias' requestTimeout' =>
      temperature == temperature' && modelAlias == modelAlias' && classes == classes' && examples == examples' &&
        requestTimeout == requestTimeout'
  | .analyzeSentiment temperature modelAlias requestTimeout, .analyzeSentiment temperature' modelAlias' requestTimeout' =>
    temperature == temperature' && modelAlias == modelAlias' && requestTimeout == requestTimeout'
  | .embeddings modelAlias, .embeddings modelAlias' => modelAlias == modelAlias'
  | .semanticSummarize format temperature modelAlias requestTimeout,
      .semanticSummarize format' temperature' modelAlias' requestTimeout' =>
      temperature == temperature' && modelAlias == modelAlias' && format == format' && requestTimeout == requestTimeout'
  | .semanticParsePDF modelAlias pageSeparator describeImages maxOutputTokens requestTimeout,
      .semanticParsePDF modelAlias' pageSeparator' describeImages' maxOutputTokens' requestTimeout' =>
      modelAlias == modelAlias' && pageSeparator == pageSeparator' && describeImages == describeImages' &&
        maxOutputTokens == maxOutputTokens' && requestTimeout == requestTimeout'
  | _, _ => false

/-- The children that `_eq_specific` compares, before all children are compared. -/
def comparedAgain : ExprHead Func Model Series → List Nat
  | .rlike => [1]
  | .like => [1]
  | .ilike => [1]
  | .regexpCount => [1]
  | .regexpExtract _ => [1]
  | .regexpExtractAll => [1, 2]
  | .regexpInstr => [1, 2]
  | .regexpSubstr => [1]
  | .year => [0]
  | .dateAdd _ => [1]
  | .timestampAdd _ => [1]
  | .dateDiff => [1, 0]
  | .timestampDiff _ => [0, 1]
  | .toUtcTimestamp _ => [0]
  | .fromUtcTimestamp _ => [0]
  | _ => []

end ExprHead

namespace LogicalExpr

variable [DecidableEq Func] [DecidableEq Model] [BEq Series]

mutual

/-- `LogicalExpr.__eq__`. -/
def beq : LogicalExpr Func Model Series → LogicalExpr Func Model Series → Bool
  | .node head children, .node head' children' =>
    head.eqSpecific head' && head.comparedAgain.all (beqAt children children') && beqChildren children children'

/-- `==` of the children at one position. -/
def beqAt : List (LogicalExpr Func Model Series) → List (LogicalExpr Func Model Series) → Nat → Bool
  | e :: _, e' :: _, 0 => beq e e'
  | _ :: es, _ :: es', i + 1 => beqAt es es' i
  | _, _, _ => false

/-- As many children, and `==` of each pair. -/
def beqChildren : List (LogicalExpr Func Model Series) → List (LogicalExpr Func Model Series) → Bool
  | [], [] => true
  | e :: es, e' :: es' => beq e e' && beqChildren es es'
  | _, _ => false

end

end LogicalExpr

end Expressions

end Fenic
