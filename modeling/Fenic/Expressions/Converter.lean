import Fenic.Expressions.LogicalExpr
import Fenic.Lib.Term

/-!
# `Expressions.Converter` — what the engine is given

`ExprConverter` turns an expression into an expression of the engine. The engine is not modelled: a converted expression
is a term, whose symbols are the calls that the converter makes with the attributes it passes, and what a call does with
the columns of its children is left to an interpretation. So an expression *denotes* the same as another on every row or
group exactly when the terms mean the same.

What the converter reads of a child other than its converted form is its class, and the value of a literal index
(`ChildView`). What `to_column_field` records is the type of a child, which its column has.
-/

namespace Fenic

namespace Expressions

variable {Func Model Series : Type}

/-! ## Calls -/

/-- An argument of a call. -/
inductive Argument (Func Model Series : Type) where
  | text (s : String)
  | texts (items : List String)
  | integer (n : Int)
  | flag (b : Bool)
  | number (q : Rat)
  | dataType (t : DataType)
  | literal (l : Literal)
  | series (series : Series)
  | func (func : Func)
  | cls (cls : UnparameterizedExpr)
  | operator (op : Operator)
  | chunking (configuration : TextChunkExprConfiguration)
  | recursiveChunking (configuration : RecursiveTextChunkExprConfiguration)
  | transcriptFormat (format : TranscriptFormatType)
  | method (method : FuzzySimilarityMethod)
  | unit (unit : DateTimeUnit)
  | metric (metric : SemanticSimilarityMetric)
  | query (query : Option (List PyFloat))
  | optText (s : Option String)
  | optInteger (n : Option Nat)
  | timeout (requestTimeout : Option Rat)
  | modelAlias (modelAlias : Option ResolvedModelAlias)
  | responseFormat (format : Option (ResolvedResponseFormat Model))
  | mapExamples (examples : Option (List (MapExample Model)))
  | predicateExamples (examples : Option (List PredicateExample))
  | classifyExamples (examples : Option (List ClassifyExample))
  | classes (classes : List ResolvedClassDefinition)
  | summaryFormat (format : SummaryFormat)

/-- A call of the engine. -/
structure Call (Func Model Series : Type) where
  name : String
  arguments : List (Argument Func Model Series)

/-! ## Literals -/

mutual

/-- The constant that a literal becomes: a moment without a time zone is taken to be in UTC. -/
def Literal.constant : Literal → Literal
  | .timestamp utc _ => .timestamp utc true
  | .array t items => .array t (Literal.constantItems items)
  | .struct fields => .struct (Literal.constantFields fields)
  | l => l

def Literal.constantItems : List Literal → List Literal
  | [] => []
  | l :: ls => l.constant :: Literal.constantItems ls

def Literal.constantFields : List (String × Literal) → List (String × Literal)
  | [] => []
  | (name, l) :: fields => (name, l.constant) :: Literal.constantFields fields

end

/-! ## Views of a child -/

/-- What the converter of an expression asks about a child. -/
structure ChildView where
  isColumn : Bool
  isLiteral : Bool
  isStringLiteral : Bool
  isZeroLiteral : Bool
  deriving DecidableEq

def ExprHead.view : ExprHead Func Model Series → ChildView
  | .column _ => ⟨true, false, false, false⟩
  | .literal (.string _) => ⟨false, true, true, false⟩
  | .literal (.null .stringType) => ⟨false, true, true, false⟩
  | .literal (.integer n) => ⟨false, true, false, n == 0⟩
  | .literal _ => ⟨false, true, false, false⟩
  | _ => ⟨false, false, false, false⟩

/-- What the converter asks about the child at one position. -/
def viewAt (views : List ChildView) (i : Nat) : ChildView :=
  views[i]?.getD ⟨false, false, false, false⟩

/-! ## Conversion -/

/-- `POLARS_DURATION_UNITS_MAP`. -/
def polarsDurationUnit : DateTimeUnit → String
  | .year => "y"
  | .month => "mo"
  | .day => "d"
  | .hour => "h"
  | .minute => "m"
  | .second => "s"
  | .millisecond => "ms"

/-- `_convert_expr`, over the converted children. -/
def ExprHead.convert (views : List ChildView) : ExprHead Func Model Series → Call Func Model Series
  | .column name => ⟨"col", [.text name]⟩
  | .literal l => ⟨"lit", [.literal l.constant]⟩
  | .seriesLiteral series => ⟨"lit", [.series series]⟩
  | .unresolvedLiteral _ parameterName => ⟨"raise", [.text parameterName]⟩
  | .alias name => ⟨"alias", [.text name]⟩
  | .sort ascending nullsLast => ⟨"sort", [.flag (!ascending), .flag nullsLast]⟩
  -- `count` of a literal counts the rows
  | .unparameterized cls => ⟨"call", [.cls cls, .flag (cls == .count && (viewAt views 0).isLiteral)]⟩
  | .countDistinct _ => ⟨"n_unique", []⟩
  | .udf func returnType => ⟨"map_elements", [.func func, .dataType returnType]⟩
  | .asyncUdf func returnType maxConcurrency timeoutSeconds numRetries =>
    ⟨"map_batches", [.func func, .dataType returnType, .integer maxConcurrency, .number timeoutSeconds,
      .integer numRetries]⟩
  | .isNull b => ⟨if b then "is_null" else "is_not_null", []⟩
  | .cast destType => ⟨"dtypes.cast", [.dataType destType]⟩
  | .arithmetic op => ⟨"arithmetic", [.operator op]⟩
  | .boolean op => ⟨"comparison", [.operator op]⟩
  | .equalityComparison op => ⟨"comparison", [.operator op]⟩
  | .numericComparison op => ⟨"comparison", [.operator op]⟩
  | .textract template => ⟨"extract_fields", [.text template]⟩
  | .textChunk configuration => ⟨"chunk_udf", [.chunking configuration]⟩
  | .recursiveTextChunk configuration => ⟨"chunking.recursive", [.recursiveChunking configuration]⟩
  | .arrayJoin delimiter => ⟨"list.join", [.text delimiter]⟩
  | .containsAny substrs caseInsensitive => ⟨"str.contains_any", [.texts substrs, .flag caseInsensitive]⟩
  -- a pattern that is a literal must be a valid regular expression
  | .rlike => ⟨"str.contains", [.flag (viewAt views 1).isStringLiteral]⟩
  | .like => ⟨"like", [.flag (viewAt views 1).isStringLiteral]⟩
  | .ilike => ⟨"ilike", [.flag (viewAt views 1).isStringLiteral]⟩
  | .tsParse format => ⟨"transcript.parse", [.transcriptFormat format]⟩
  | .regexpSplit pattern limit =>
    if 0 < limit then ⟨"str.replace", [.text pattern, .integer (limit - 1)]⟩ else ⟨"str.replace_all", [.text pattern]⟩
  | .stringCasing case =>
    match case with
    | .upper => ⟨"str.to_uppercase", []⟩
    | .lower => ⟨"str.to_lowercase", []⟩
    | .title => ⟨"str.to_titlecase", []⟩
  | .stripChars side =>
    match side with
    | .both => ⟨"str.strip_chars", []⟩
    | .left => ⟨"str.strip_chars_start", []⟩
    | .right => ⟨"str.strip_chars_end", []⟩
  -- a search that is a column is replaced group by group
  | .replace isLiteral => ⟨"str.replace_all", [.flag isLiteral, .flag (viewAt views 1).isColumn]⟩
  | .jinja template strict => ⟨"jinja.render", [.text template, .flag strict]⟩
  | .fuzzyRatio method => ⟨"fuzz.ratio", [.method method]⟩
  | .fuzzyTokenSortRatio method => ⟨"fuzz.token_sort_ratio", [.method method]⟩
  | .fuzzyTokenSetRatio method => ⟨"fuzz.token_set_ratio", [.method method]⟩
  | .regexpCount => ⟨"str.count_matches", []⟩
  | .regexpExtract idx => ⟨"extract_or_empty", [.integer idx]⟩
  | .regexpExtractAll =>
    if (viewAt views 2).isZeroLiteral && (viewAt views 1).isLiteral then ⟨"str.extract_all", []⟩
    else ⟨"regexp.extract_all", []⟩
  | .regexpInstr => if (viewAt views 2).isLiteral then ⟨"str.find", []⟩ else ⟨"regexp.instr", []⟩
  | .regexpSubstr => ⟨"str.extract", [.integer 0]⟩
  | .year => ⟨"dt.year", []⟩
  | .month => ⟨"dt.month", []⟩
  | .day => ⟨"dt.day", []⟩
  | .hour => ⟨"dt.hour", []⟩
  | .minute => ⟨"dt.minute", []⟩
  | .second => ⟨"dt.second", []⟩
  | .milliSecond => ⟨"dt.millisecond", []⟩
  | .toDate format => ⟨"str.strptime", [.dataType .dateType, .text (toDateFormat format)]⟩
  | .toTimestamp format => ⟨"str.strptime", [.dataType .timestampType, .text (toTimestampFormat format)]⟩
  | .now asDate => ⟨"datetime.now", [.flag asDate]⟩
  | .dateTrunc unit => ⟨"dt.truncate", [.text ("1" ++ polarsDurationUnit unit)]⟩
  | .dateAdd sub => ⟨if sub then "sub_days" else "add_days", []⟩
  | .timestampAdd unit => ⟨"dt.offset_by", [.text (polarsDurationUnit unit)]⟩
  | .dateFormat format => ⟨"dt.to_string", [.text (javaLikeToChrono format)]⟩
  | .dateDiff => ⟨"dt.total_days", []⟩
  | .timestampDiff unit => ⟨"timestamp_diff", [.unit unit]⟩
  | .toUtcTimestamp timezone => ⟨"to_utc", [.text timezone]⟩
  | .fromUtcTimestamp timezone => ⟨"from_utc", [.text timezone]⟩
  | .embeddingSimilarity metric query => ⟨"similarity", [.metric metric, .query query]⟩
  | .jq query => ⟨"json.jq", [.text query]⟩
  | .jsonContains value => ⟨"json.contains", [.text value]⟩
  -- an empty filter is none
  | .mdGetCodeBlocks languageFilter => ⟨"markdown.get_code_blocks", [.optText (languageFilter.filter (· ≠ ""))]⟩
  | .mdGenerateToc maxLevel => ⟨"markdown.generate_toc", [.integer maxLevel]⟩
  | .mdExtractHeaderChunks headerLevel => ⟨"markdown.extract_header_chunks", [.integer headerLevel]⟩
  | .semanticMap template strict maxTokens temperature modelAlias responseFormat examples requestTimeout =>
    ⟨"SemanticMap", [.text template, .flag strict, .integer maxTokens, .number temperature, .modelAlias modelAlias,
      .responseFormat responseFormat, .mapExamples examples, .timeout requestTimeout]⟩
  | .semanticExtract maxTokens temperature responseFormat modelAlias requestTimeout =>
    ⟨"SemanticExtract", [.integer maxTokens, .number temperature, .responseFormat (some responseFormat),
      .modelAlias modelAlias, .timeout requestTimeout]⟩
  | .semanticPred template strict temperature modelAlias examples requestTimeout =>
    ⟨"SemanticPredicate", [.text template, .flag strict, .number temperature, .modelAlias modelAlias,
      .predicateExamples examples, .timeout requestTimeout]⟩
  -- the timeout is not passed on
  | .semanticReduce instruction maxTokens temperature modelAlias _ =>
    ⟨"SemanticReduce", [.text instruction, .integer maxTokens, .number temperature, .modelAlias modelAlias]⟩
  | .semanticClassify classes temperature examples modelAlias requestTimeout =>
    ⟨"SemanticClassify", [.classes classes, .number temperature, .classifyExamples examples, .modelAlias modelAlias,
      .timeout requestTimeout]⟩
  | .analyzeSentiment temperature modelAlias requestTimeout =>
    ⟨"AnalyzeSentiment", [.number temperature, .modelAlias modelAlias, .timeout requestTimeout]⟩
  | .embeddings modelAlias => ⟨"get_embeddings", [.modelAlias modelAlias]⟩
  | .semanticSummarize format temperature modelAlias requestTimeout =>
    ⟨"SemanticSummarize", [.summaryFormat format, .number temperature, .modelAlias modelAlias, .timeout requestTimeout]⟩
  | .semanticParsePDF modelAlias pageSeparator describeImages maxOutputTokens requestTimeout =>
    ⟨"SemanticParsePDF", [.modelAlias modelAlias, .optText pageSeparator, .flag describeImages,
      .optInteger maxOutputTokens, .timeout requestTimeout]⟩

namespace LogicalExpr

mutual

/-- `ExprConverter.convert`, the name of the result apart. -/
def convert : LogicalExpr Func Model Series → Term (Call Func Model Series)
  | .node head children => .app (head.convert (children.map fun e => e.head.view)) (convertChildren children)

def convertChildren : List (LogicalExpr Func Model Series) → List (Term (Call Func Model Series))
  | [] => []
  | e :: es => convert e :: convertChildren es

end

/-- What an expression denotes: a value for each row or group, given what the calls of the engine do. -/
def denote {Input Value : Type} (engine : Term.Interpretation (Call Func Model Series) Input Value)
    (e : LogicalExpr Func Model Series) : Input → Value :=
  e.convert.eval engine

end LogicalExpr

end Expressions

end Fenic
