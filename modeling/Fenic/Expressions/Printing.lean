import Fenic.Expressions.Converter

/-!
# `Expressions.Printing` — the printed form of an expression

The logical side names the column of an expression, and the field of a struct, by `str` of the expression. `printed` is
`__str__` of each class over the printed forms of its children. Most classes print a call; `length_lt_call` says that a
call is longer than anything in its argument list.

How Python prints a callable, a float, a date, a nested value or a Pydantic object is left open (`Printing`).
-/

namespace Fenic

namespace Expressions

/-- The texts of values that are opaque here, and the names and lengths of series. -/
class Printing (Func Model Series : Type) where
  /-- `func.__name__`. -/
  funcName : Func → String
  /-- `str` of the value of a literal that is not a text, an integer, a truth value or `None`. -/
  literal : Literal → String
  /-- `get_content_hash`. -/
  contentHash : String → String
  /-- `get_content_hash(response_format.schema_fingerprint)`. -/
  schemaHash : ResolvedResponseFormat Model → String
  /-- `list(group_context_exprs.keys())`, of which the instruction has the names. -/
  contextNames : String → String
  textChunkConfiguration : TextChunkExprConfiguration → String
  recursiveTextChunkConfiguration : RecursiveTextChunkExprConfiguration → String
  modelAlias : Option ResolvedModelAlias → String
  seriesLength : Series → Nat
  seriesName : Series → String

/-! ## Enumerations -/

/-- `Operator.value`. -/
def Operator.text : Operator → String
  | .eq => "="
  | .notEq => "!="
  | .lt => "<"
  | .ltEq => "<="
  | .gt => ">"
  | .gtEq => ">="
  | .plus => "+"
  | .minus => "-"
  | .multiply => "*"
  | .divide => "/"
  | .and => "AND"
  | .or => "OR"

def SemanticSimilarityMetric.text : SemanticSimilarityMetric → String
  | .cosine => "cosine"
  | .l2 => "l2"
  | .dot => "dot"

def TranscriptFormatType.text : TranscriptFormatType → String
  | .srt => "srt"
  | .generic => "generic"
  | .webvtt => "webvtt"

def StripCharsSide.text : StripCharsSide → String
  | .left => "left"
  | .right => "right"
  | .both => "both"

def DateTimeUnit.text : DateTimeUnit → String
  | .year => "year"
  | .month => "month"
  | .day => "day"
  | .hour => "hour"
  | .minute => "minute"
  | .second => "second"
  | .millisecond => "millisecond"

/-- `str` of a truth value. -/
def boolText (b : Bool) : String := if b then "True" else "False"

/-! ## Calls -/

/-- `name(argument, ..., argument)`. -/
def call (name : String) (arguments : List String) : String :=
  name ++ "(" ++ ", ".intercalate arguments ++ ")"

theorem length_le_intercalate {separator s : String} {l : List String} (h : s ∈ l) :
    s.length ≤ (separator.intercalate l).length := by
  induction l with
  | nil => cases h
  | cons t rest ih =>
    cases rest with
    | nil =>
      rw [List.mem_singleton] at h
      rw [h, String.intercalate_singleton]
    | cons u rest =>
      rw [String.intercalate_cons_cons]
      simp only [String.length_append]
      rcases List.mem_cons.mp h with rfl | h
      · omega
      · have := ih h
        omega

/-- A call is longer than what its arguments have in them. -/
theorem length_lt_call {name s argument : String} {arguments : List String} (hmem : argument ∈ arguments)
    (h : s.length ≤ argument.length) : s.length < (call name arguments).length := by
  have hjoined : argument.length ≤ (", ".intercalate arguments).length := length_le_intercalate hmem
  have hopen : "(".length = 1 := rfl
  simp only [call, String.length_append, hopen]
  omega

/-! ## Classes -/

/-- `function_name` of a class without attributes. -/
def UnparameterizedExpr.functionName : UnparameterizedExpr → String
  | .array => "array"
  | .struct => "struct"
  | .flatten => "flatten"
  | .coalesce => "coalesce"
  | .greatest => "greatest"
  | .least => "least"
  | .sum => "sum"
  | .avg => "avg"
  | .min => "min"
  | .max => "max"
  | .count => "count"
  | .collectList => "collect_list"
  | .first => "first"
  | .stddev => "stddev"
  | .approxCountDistinct => "approx_count_distinct"
  | .sumDistinct => "sum_distinct"
  | .arrayLength => "array_size"
  | .arrayDistinct => "array_distinct"
  | .arrayContains => "array_contains"
  | .arrayMax => "array_max"
  | .arrayMin => "array_min"
  | .arraySort => "array_sort"
  | .arrayReverse => "array_reverse"
  | .arrayRemove => "array_remove"
  | .arrayUnion => "array_union"
  | .arrayIntersect => "array_intersect"
  | .arrayExcept => "array_except"
  | .arrayCompact => "array_compact"
  | .arrayRepeat => "array_repeat"
  | .arraySlice => "slice"
  | .elementAt => "element_at"
  | .arraysOverlap => "arrays_overlap"
  | .countTokens => "text.count_tokens"
  | .concat => "text.concat"
  | .contains => "text.contains"
  | .startsWith => "text.starts_with"
  | .endsWith => "text.ends_with"
  | .splitPart => "text.split_part"
  | .strLength => "text.str_length"
  | .byteLength => "text.byte_length"
  | .embeddingNormalize => "embedding.normalize"
  | .jsonType => "json.type"
  | .mdToJson => "markdown.to_json"
  -- these four print in their own way
  | .index => ""
  | .not => ""
  | .isIn => ""
  | .when => ""
  | .otherwise => ""

/-- The printed form of one of the arguments. -/
def argumentAt (arguments : List String) (i : Nat) : String := arguments.getD i ""

/-- `__str__` of the classes without attributes. -/
def UnparameterizedExpr.printed (cls : UnparameterizedExpr) (arguments : List String) : String :=
  match cls with
  | .index => argumentAt arguments 0 ++ "[" ++ argumentAt arguments 1 ++ "]"
  | .not => "NOT " ++ argumentAt arguments 0
  | .isIn => argumentAt arguments 0 ++ " IN " ++ argumentAt arguments 1
  | .when =>
    -- the first branch has no expression before it
    match arguments with
    | [condition, value] => "CASE WHEN (" ++ condition ++ ") THEN (" ++ value ++ ")"
    | _ =>
      argumentAt arguments 0 ++ " WHEN (" ++ argumentAt arguments 1 ++ ") THEN (" ++ argumentAt arguments 2 ++ ")"
  | .otherwise => argumentAt arguments 0 ++ " ELSE (" ++ argumentAt arguments 1 ++ ")"
  | cls => call cls.functionName arguments

section

variable {Func Model Series : Type} [Printing Func Model Series]

/-- `str(literal)`. -/
def Literal.text (Func Model Series : Type) [Printing Func Model Series] : Literal → String
  | .null _ => "None"
  | .string s => s
  | .integer n => toString n
  | .boolean b => boolText b
  | l => Printing.literal Func Model Series l

namespace ExprHead

/-- `SortExpr`. -/
def isSort : ExprHead Func Model Series → Bool
  | .sort _ _ => true
  | _ => false

/-- What `SemanticReduceExpr` prints: its input, the names of the context and the sort orders. -/
def reduceArguments (instruction : String) (heads : List (ExprHead Func Model Series)) (arguments : List String) :
    List String :=
  let children := (heads.zip arguments).drop 1
  let context := children.filter fun child => !child.1.isSort
  let orders := children.filter fun child => child.1.isSort
  argumentAt arguments 0 ::
    ((if context = [] then [] else ["group_context=" ++ Printing.contextNames Func Model Series instruction]) ++
      (if orders = [] then [] else ["order_by=" ++ ", ".intercalate (orders.map Prod.snd)]))

/-- `__str__`, over the heads of the children and their printed forms. -/
def printed (heads : List (ExprHead Func Model Series)) (arguments : List String) : ExprHead Func Model Series → String
  | .column name => name
  | .literal l => call "lit" [l.text Func Model Series]
  | .seriesLiteral series => call "series" ["len=" ++ toString (Printing.seriesLength Func Model series)]
  | .unresolvedLiteral _ parameterName => call "param" [parameterName]
  | .alias name => argumentAt arguments 0 ++ " AS " ++ name
  | .sort ascending _ => call (if ascending then "asc" else "desc") [argumentAt arguments 0]
  | .unparameterized cls => cls.printed arguments
  | .countDistinct _ => call "count_distinct" arguments
  | .udf func _ => call (Printing.funcName Model Series func) arguments
  | .asyncUdf func _ _ _ _ => call (Printing.funcName Model Series func) arguments
  | .isNull b => argumentAt arguments 0 ++ " IS " ++ (if b then "" else "NOT") ++ " NULL"
  | .cast destType => call "cast" [argumentAt arguments 0 ++ " AS " ++ destType.toString]
  | .arithmetic op => call "" [argumentAt arguments 0 ++ " " ++ op.text ++ " " ++ argumentAt arguments 1]
  | .boolean op => call "" [argumentAt arguments 0 ++ " " ++ op.text ++ " " ++ argumentAt arguments 1]
  | .equalityComparison op => call "" [argumentAt arguments 0 ++ " " ++ op.text ++ " " ++ argumentAt arguments 1]
  | .numericComparison op => call "" [argumentAt arguments 0 ++ " " ++ op.text ++ " " ++ argumentAt arguments 1]
  -- text
  | .textract template => call "text.extract" ["'" ++ template ++ "'", argumentAt arguments 0]
  | .textChunk configuration =>
    call "text.chunk" [argumentAt arguments 0, Printing.textChunkConfiguration Func Model Series configuration]
  | .recursiveTextChunk configuration =>
    call "text.recursive_chunk"
      [argumentAt arguments 0, Printing.recursiveTextChunkConfiguration Func Model Series configuration]
  | .arrayJoin delimiter => call "text.array_join" [argumentAt arguments 0, delimiter]
  | .containsAny substrs caseInsensitive =>
    call "text.contains_any"
      [argumentAt arguments 0, ", ".intercalate substrs, "case_insensitive=" ++ boolText caseInsensitive]
  | .rlike => call "text.rlike" arguments
  | .like => call "text.like" arguments
  | .ilike => call "text.ilike" arguments
  | .tsParse format => call "text.parse_transcript" [argumentAt arguments 0, format.text]
  | .regexpSplit pattern limit => call "text.regexp_split" [argumentAt arguments 0, pattern, "limit=" ++ toString limit]
  | .stringCasing _ => call "text.string_casing" arguments
  | .stripChars side =>
    call "text.strip_chars" [argumentAt arguments 0, arguments.getD 1 "None", "side=" ++ side.text]
  | .replace _ => call "text.replace" arguments
  | .jinja template _ => call "text.jinja" [template, ", ".intercalate arguments]
  | .fuzzyRatio _ => call "text.fuzzy_ratio" arguments
  | .fuzzyTokenSortRatio _ => call "text.fuzzy_token_sort_ratio" arguments
  | .fuzzyTokenSetRatio _ => call "text.fuzzy_token_set_ratio" arguments
  | .regexpCount => call "text.regexp_count" arguments
  | .regexpExtract _ => call "text.regexp_extract" arguments
  | .regexpExtractAll => call "text.regexp_extract_all" arguments
  | .regexpInstr => call "text.regexp_instr" arguments
  | .regexpSubstr => call "text.regexp_substr" arguments
  -- dates
  | .year => call "dt.year" [argumentAt arguments 0]
  | .month => call "dt.month" [argumentAt arguments 0]
  | .day => call "dt.day" [argumentAt arguments 0]
  | .hour => call "dt.hour" [argumentAt arguments 0]
  | .minute => call "dt.minute" [argumentAt arguments 0]
  | .second => call "dt.second" [argumentAt arguments 0]
  | .milliSecond => call "dt.millisecond" [argumentAt arguments 0]
  | .toDate _ => call "dt.to_date" [argumentAt arguments 0]
  | .toTimestamp _ => call "dt.to_timestamp" [argumentAt arguments 0]
  | .now asDate => call "dt.now" ["as_date=" ++ boolText asDate]
  -- these four do not print the date itself
  | .dateTrunc unit => call "dt.date_trunc" ["unit=1" ++ polarsDurationUnit unit]
  | .dateAdd _ => call "dt.date_add" ["days=" ++ argumentAt arguments 1]
  | .timestampAdd unit =>
    call "dt.timestamp_add" ["quantity=" ++ argumentAt arguments 1, "unit=" ++ polarsDurationUnit unit]
  | .dateFormat format => call "dt.date_format" ["format=" ++ javaLikeToChrono format]
  | .dateDiff => call "dt.datediff" ["end=" ++ argumentAt arguments 1, "start=" ++ argumentAt arguments 0]
  | .timestampDiff unit =>
    call "dt.timestamp_diff"
      ["start=" ++ argumentAt arguments 0, "end=" ++ argumentAt arguments 1, "unit=" ++ unit.text]
  | .toUtcTimestamp timezone => call "dt.to_utc_timestamp" [argumentAt arguments 0, "timezone=" ++ timezone]
  | .fromUtcTimestamp timezone => call "dt.from_utc_timestamp" [argumentAt arguments 0, "timezone=" ++ timezone]
  -- embeddings, JSON and Markdown
  | .embeddingSimilarity metric query =>
    call "embedding.compute_similarity"
      [argumentAt arguments 0, if query.isSome then "query_vector" else argumentAt arguments 1,
        "metric=" ++ metric.text]
  | .jq _ => call "json.jq" arguments
  | .jsonContains _ => call "json.contains" arguments
  | .mdGetCodeBlocks _ => call "markdown.get_code_blocks" arguments
  | .mdGenerateToc _ => call "markdown.generate_toc" arguments
  | .mdExtractHeaderChunks headerLevel =>
    call "markdown.extract_header_chunks" [argumentAt arguments 0, "header_level=" ++ toString headerLevel]
  -- semantic operators
  | .semanticMap template _ _ _ _ _ _ _ =>
    call ("semantic.map_" ++ Printing.contentHash Func Model Series template) arguments
  | .semanticExtract _ _ responseFormat _ _ =>
    call ("semantic.extract_" ++ Printing.schemaHash Func Series responseFormat) [argumentAt arguments 0]
  | .semanticPred template _ _ _ _ _ =>
    call ("semantic.predicate_" ++ Printing.contentHash Func Model Series template) arguments
  | .semanticReduce instruction _ _ _ _ =>
    call ("semantic.reduce_" ++ Printing.contentHash Func Model Series instruction)
      (reduceArguments instruction heads arguments)
  | .semanticClassify classes _ _ _ _ =>
    call "semantic.classify"
      [argumentAt arguments 0, "[" ++ ", ".intercalate (classes.map fun c => "'" ++ c.label ++ "'") ++ "]"]
  | .analyzeSentiment _ _ _ => call "semantic.analyze_sentiment" [argumentAt arguments 0]
  | .embeddings modelAlias =>
    call "semantic.embed" [argumentAt arguments 0, Printing.modelAlias Func Model Series modelAlias]
  | .semanticSummarize _ _ _ _ => call "semantic.summarize" [argumentAt arguments 0]
  | .semanticParsePDF modelAlias _ _ _ _ =>
    call "semantic.parse_pdf"
      [argumentAt arguments 0, "model:" ++ Printing.modelAlias Func Model Series modelAlias]

end ExprHead

namespace LogicalExpr

mutual

/-- `str(expr)`. -/
def printed : LogicalExpr Func Model Series → String
  | .node head children => head.printed (children.map LogicalExpr.head) (printedChildren children)

def printedChildren : List (LogicalExpr Func Model Series) → List String
  | [] => []
  | e :: es => printed e :: printedChildren es

end

theorem printedChildren_eq (es : List (LogicalExpr Func Model Series)) : printedChildren es = es.map printed := by
  induction es with
  | nil => rfl
  | cons e es ih =>
    show printed e :: printedChildren es = _
    rw [ih]
    rfl

end LogicalExpr

end

end Expressions

end Fenic
