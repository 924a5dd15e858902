import PubSweep.Grammar.Rule

/-!
The grammar of Rust source files.

Rule names that start with an underscore leave no node in the tree.  The rules say what parses,
not what compiles: items of every kind are accepted in any list of declarations.
-/

namespace PubSweep.Grammar.Rust

open Rule

/-! ## Tokens given by patterns -/

/-- The separator of a macro repetition: anything up to the repetition mark. -/
def repetitionSeparator : Lexeme :=
  .ofPattern "repetition_separator" (.plus (.chars (.compl (.ofString "+*?"))))

/-- The opening quote of a string, with the mark of a byte or C string. -/
def stringOpen : Lexeme :=
  .ofPattern "string_open" (.cat (.opt (.chars (.ofString "bc"))) (.literal "\""))

/-- The closing quote of a string. -/
def stringClose : Lexeme := (Lexeme.ofText "\"").tight

/-- The opening bracket of type arguments, which wins over longer operators. -/
def argumentsOpen : Lexeme := (Lexeme.ofText "<").withPrecedence 1

/-- Two more slashes: the comment is no documentation. -/
def moreSlashes : Lexeme :=
  ((Lexeme.ofPattern "more_slashes" (.literal "//")).tight).withPrecedence 2

/-- The rest of a line. -/
def restOfLine : Lexeme :=
  .ofPattern "rest_of_line" (.star (.chars .notNewline))

/-- The text of a plain line comment. -/
def lineText : Lexeme :=
  ((Lexeme.ofPattern "line_text" (.star (.chars .notNewline))).tight).withPrecedence 1

/-- The mark of documentation for what encloses a line comment. -/
def innerLineMark : Lexeme := ((Lexeme.ofText "!").tight).withPrecedence 2

/-- The mark of documentation for what follows a line comment. -/
def outerLineMark : Lexeme := ((Lexeme.ofText "/").tight).withPrecedence 2

/-- Names of the numeric types, which may end a number. -/
def numericTypes : List String :=
  ["u8", "i8", "u16", "i16", "u32", "i32", "u64", "i64", "u128", "i128", "isize", "usize",
    "f32", "f64"]

/-- Integers in four bases, with an optional type. -/
def integerLiteral : Lexeme :=
  .ofPattern "integer_literal"
    (.cat
      (.oneOf [
        .cat (.chars .digit) (.star (.chars (.digit ++ .ofString "_"))),
        .cat (.literal "0x") (.plus (.chars (.hexDigit ++ .ofString "_"))),
        .cat (.literal "0b") (.plus (.chars (.ofString "01_"))),
        .cat (.literal "0o") (.plus (.chars (.range '0' '7' ++ .ofString "_")))])
      (.opt (.oneOf (numericTypes.map .literal))))

/-- What may follow a backslash. -/
def escapeBody : Pattern :=
  .oneOf [
    .chars (.compl (.ofString "xu")),
    .cat (.literal "u") (.times 4 (.chars .hexDigit)),
    .seq [.literal "u\x7b", .plus (.chars .hexDigit), .literal "\x7d"],
    .cat (.literal "x") (.times 2 (.chars .hexDigit))]

/-- An escape inside a string. -/
def escapeSequence : Lexeme :=
  (Lexeme.ofPattern "escape_sequence" (.cat (.literal "\\") escapeBody)).tight

/-- A character or byte between quotes. -/
def charLiteral : Lexeme :=
  .ofPattern "char_literal"
    (.seq [
      .opt (.literal "b"),
      .literal "'",
      .opt (.alt (.cat (.literal "\\") escapeBody) (.chars (.compl (.ofString "\\'")))),
      .literal "'"])

/-- Identifiers, raw ones included. -/
def identifier : Lexeme :=
  .ofPattern "identifier"
    (.seq [.opt (.literal "r#"), .chars .identifierStart, .star (.chars .identifierContinue)])

/-- The first line of a script. -/
def shebang : Lexeme :=
  .ofPattern "shebang"
    (.seq [
      .literal "#!",
      .star (.chars (.ofString "\r\x0c\t\x0b ")),
      .opt (.cat (.chars (.compl (.ofString "[\n"))) (.star (.chars .notNewline))),
      .literal "\n"])

/-- A variable of a macro. -/
def metavariable : Lexeme :=
  .ofPattern "metavariable"
    (.seq [.literal "$", .chars .letter, .star (.chars (.letter ++ .digit))])

/-! ## Rules -/

/-- The types whose names are keywords of the grammar. -/
def primitiveTypes : Rule := lits (numericTypes ++ ["bool", "str", "char"])

/-- Punctuation that may stand in a macro's tokens. -/
def punctuation : List String :=
  ["+", "-", "*", "/", "%", "^", "!", "&", "|", "&&", "||", "<<", ">>", "+=", "-=", "*=", "/=",
    "%=", "^=", "&=", "|=", "<<=", ">>=", "=", "==", "!=", ">", "<", ">=", "<=", "@", "_", ".",
    "..", "...", "..=", ",", ";", ":", "::", "->", "=>", "#", "?"]

/-- Whole texts, statements and macros. -/
def sourceRules : List (String × Rule) := [
  ("source_file", all [opt "shebang", many "_statement"]),
  ("_statement", one ["expression_statement", "_declaration_statement"]),
  ("empty_statement", lit ";"),
  ("expression_statement",
    one [all ["_expression", lit ";"], rank 1 "_expression_ending_with_block"]),
  ("_declaration_statement",
    one [
      "const_item", "macro_invocation", "macro_definition", "empty_statement", "attribute_item",
      "inner_attribute_item", "mod_item", "foreign_mod_item", "struct_item", "union_item",
      "enum_item", "type_item", "function_item", "function_signature_item", "impl_item",
      "trait_item", "associated_type", "let_declaration", "use_declaration",
      "extern_crate_declaration", "static_item"]),
  ("macro_definition",
    all [
      lit "macro_rules!", .field "name" (one ["identifier", "_reserved_identifier"]),
      one [
        all [
          lit "(", all [many (all ["macro_rule", lit ";"]), opt "macro_rule"], lit ")", lit ";"],
        all [
          lit "[", all [many (all ["macro_rule", lit ";"]), opt "macro_rule"], lit "]", lit ";"],
        all [lit "\x7b", all [many (all ["macro_rule", lit ";"]), opt "macro_rule"], lit "\x7d"]]]),
  ("macro_rule",
    all [.field "left" "token_tree_pattern", lit "=>", .field "right" "token_tree"]),
  ("_token_pattern",
    one [
      "token_tree_pattern", "token_repetition_pattern", "token_binding_pattern", "metavariable",
      "_non_special_token"]),
  ("token_tree_pattern",
    one [
      all [lit "(", many "_token_pattern", lit ")"],
      all [lit "[", many "_token_pattern", lit "]"],
      all [lit "\x7b", many "_token_pattern", lit "\x7d"]]),
  ("token_binding_pattern",
    rank 1 (all [.field "name" "metavariable", lit ":", .field "type" "fragment_specifier"])),
  ("token_repetition_pattern",
    all [
      lit "$", lit "(", many "_token_pattern", lit ")", opt (.token repetitionSeparator),
      lits ["+", "*", "?"]]),
  ("fragment_specifier",
    lits [
      "block", "expr", "expr_2021", "ident", "item", "lifetime", "literal", "meta", "pat",
      "pat_param", "path", "stmt", "tt", "ty", "vis"]),
  ("_tokens", one ["token_tree", "token_repetition", "metavariable", "_non_special_token"]),
  ("token_tree",
    one [
      all [lit "(", many "_tokens", lit ")"], all [lit "[", many "_tokens", lit "]"],
      all [lit "\x7b", many "_tokens", lit "\x7d"]]),
  ("token_repetition",
    all [
      lit "$", lit "(", many "_tokens", lit ")", opt (.token repetitionSeparator),
      lits ["+", "*", "?"]]),
  ("_non_special_token",
    one [
      "_literal", "identifier", "mutable_specifier", "self", "super", "crate",
      showAs "primitive_type" primitiveTypes, rankRight 0 (.many1 (lits punctuation)),
      lits [
        "'", "as", "async", "await", "break", "const", "continue", "default", "enum", "fn", "for",
        "gen", "if", "impl", "let", "loop", "match", "mod", "pub", "return", "static", "struct",
        "trait", "type", "union", "unsafe", "use", "where", "while"]])]

/-- Attributes, items and their parts. -/
def itemRules : List (String × Rule) := [
  ("attribute_item", all [lit "#", lit "[", "attribute", lit "]"]),
  ("inner_attribute_item", all [lit "#", lit "!", lit "[", "attribute", lit "]"]),
  ("attribute",
    all [
      "_path",
      opt (one [
        all [lit "=", .field "value" "_expression"],
        .field "arguments" (showAs "token_tree" "delim_token_tree")])]),
  ("mod_item",
    all [
      opt "visibility_modifier", lit "mod", .field "name" "identifier",
      one [lit ";", .field "body" "declaration_list"]]),
  ("foreign_mod_item",
    all [
      opt "visibility_modifier", opt (lit "unsafe"), "extern_modifier",
      one [lit ";", .field "body" "declaration_list"]]),
  ("declaration_list", all [lit "\x7b", many "_declaration_statement", lit "\x7d"]),
  ("struct_item",
    all [
      opt "visibility_modifier", lit "struct", .field "name" "_type_identifier",
      .field "type_parameters" (opt "type_parameters"),
      one [
        all [opt "where_clause", .field "body" "field_declaration_list"],
        all [.field "body" "ordered_field_declaration_list", opt "where_clause", lit ";"],
        lit ";"]]),
  ("union_item",
    all [
      opt "visibility_modifier", lit "union", .field "name" "_type_identifier",
      .field "type_parameters" (opt "type_parameters"), opt "where_clause",
      .field "body" "field_declaration_list"]),
  ("enum_item",
    all [
      opt "visibility_modifier", lit "enum", .field "name" "_type_identifier",
      .field "type_parameters" (opt "type_parameters"), opt "where_clause",
      .field "body" "enum_variant_list"]),
  ("enum_variant_list",
    all [
      lit "\x7b", sepBy "," (all [many "attribute_item", "enum_variant"]), opt (lit ","),
      lit "\x7d"]),
  ("enum_variant",
    all [
      opt "visibility_modifier", .field "name" "identifier",
      .field "body" (opt (one ["field_declaration_list", "ordered_field_declaration_list"])),
      opt (all [lit "=", .field "value" "_expression"])]),
  ("field_declaration_list",
    all [
      lit "\x7b", sepBy "," (all [many "attribute_item", "field_declaration"]), opt (lit ","),
      lit "\x7d"]),
  ("field_declaration",
    all [
      opt "visibility_modifier", .field "name" "_field_identifier", lit ":",
      .field "type" "_type"]),
  ("ordered_field_declaration_list",
    all [
      lit "(",
      sepBy "," (all [many "attribute_item", opt "visibility_modifier", .field "type" "_type"]),
      opt (lit ","), lit ")"]),
  ("extern_crate_declaration",
    all [
      opt "visibility_modifier", lit "extern", "crate", .field "name" "identifier",
      opt (all [lit "as", .field "alias" "identifier"]), lit ";"]),
  ("const_item",
    all [
      opt "visibility_modifier", lit "const", .field "name" "identifier", lit ":",
      .field "type" "_type", opt (all [lit "=", .field "value" "_expression"]), lit ";"]),
  ("static_item",
    all [
      opt "visibility_modifier", lit "static", opt (lit "ref"), opt "mutable_specifier",
      .field "name" "identifier", lit ":", .field "type" "_type",
      opt (all [lit "=", .field "value" "_expression"]), lit ";"]),
  ("type_item",
    all [
      opt "visibility_modifier", lit "type", .field "name" "_type_identifier",
      .field "type_parameters" (opt "type_parameters"), opt "where_clause", lit "=",
      .field "type" "_type", opt "where_clause", lit ";"]),
  ("function_item",
    all [
      opt "visibility_modifier", opt "function_modifiers", lit "fn",
      .field "name" (one ["identifier", "metavariable"]),
      .field "type_parameters" (opt "type_parameters"), .field "parameters" "parameters",
      opt (all [lit "->", .field "return_type" "_type"]), opt "where_clause",
      .field "body" "block"]),
  ("function_signature_item",
    all [
      opt "visibility_modifier", opt "function_modifiers", lit "fn",
      .field "name" (one ["identifier", "metavariable"]),
      .field "type_parameters" (opt "type_parameters"), .field "parameters" "parameters",
      opt (all [lit "->", .field "return_type" "_type"]), opt "where_clause", lit ";"]),
  ("function_modifiers",
    .many1 (one [lits ["async", "default", "const", "unsafe"], "extern_modifier"])),
  ("where_clause",
    rankRight 0 (all [lit "where", opt (all [sepBy1 "," "where_predicate", opt (lit ",")])])),
  ("where_predicate",
    all [
      .field "left" (one [
        "lifetime", "_type_identifier", "scoped_type_identifier", "generic_type",
        "reference_type", "pointer_type", "tuple_type", "array_type", "higher_ranked_trait_bound",
        showAs "primitive_type" primitiveTypes]),
      .field "bounds" "trait_bounds"]),
  ("impl_item",
    all [
      opt (lit "unsafe"), lit "impl", .field "type_parameters" (opt "type_parameters"),
      opt (all [
        opt (lit "!"),
        .field "trait" (one ["_type_identifier", "scoped_type_identifier", "generic_type"]),
        lit "for"]),
      .field "type" "_type", opt "where_clause", one [.field "body" "declaration_list", lit ";"]]),
  ("trait_item",
    all [
      opt "visibility_modifier", opt (lit "unsafe"), lit "trait",
      .field "name" "_type_identifier", .field "type_parameters" (opt "type_parameters"),
      .field "bounds" (opt "trait_bounds"), opt "where_clause", .field "body" "declaration_list"]),
  ("associated_type",
    all [
      lit "type", .field "name" "_type_identifier",
      .field "type_parameters" (opt "type_parameters"), .field "bounds" (opt "trait_bounds"),
      opt "where_clause", lit ";"]),
  ("trait_bounds",
    all [lit ":", sepBy1 "+" (one ["_type", "lifetime", "higher_ranked_trait_bound"])]),
  ("higher_ranked_trait_bound",
    all [lit "for", .field "type_parameters" "type_parameters", .field "type" "_type"]),
  ("removed_trait_bound", all [lit "?", "_type"]),
  ("type_parameters",
    rank 1 (all [
      lit "<",
      sepBy1 "," (all [
        many "attribute_item",
        one ["metavariable", "type_parameter", "lifetime_parameter", "const_parameter"]]),
      opt (lit ","), lit ">"])),
  ("const_parameter",
    all [
      lit "const", .field "name" "identifier", lit ":", .field "type" "_type",
      opt (all [
        lit "=", .field "value" (one ["block", "identifier", "_literal", "negative_literal"])])]),
  ("type_parameter",
    rank 1 (all [
      .field "name" "_type_identifier", opt (.field "bounds" "trait_bounds"),
      opt (all [lit "=", .field "default_type" "_type"])])),
  ("lifetime_parameter",
    rank 1 (all [.field "name" "lifetime", opt (.field "bounds" "trait_bounds")])),
  ("let_declaration",
    all [
      lit "let", opt "mutable_specifier", .field "pattern" "_pattern",
      opt (all [lit ":", .field "type" "_type"]),
      opt (all [lit "=", .field "value" "_expression"]),
      opt (all [lit "else", .field "alternative" "block"]), lit ";"]),
  ("use_declaration",
    all [opt "visibility_modifier", lit "use", .field "argument" "_use_clause", lit ";"]),
  ("_use_clause", one ["_path", "use_as_clause", "use_list", "scoped_use_list", "use_wildcard"]),
  ("scoped_use_list", all [.field "path" (opt "_path"), lit "::", .field "list" "use_list"]),
  ("use_list", all [lit "\x7b", sepBy "," "_use_clause", opt (lit ","), lit "\x7d"]),
  ("use_as_clause", all [.field "path" "_path", lit "as", .field "alias" "identifier"]),
  ("use_wildcard", all [opt (all [opt "_path", lit "::"]), lit "*"]),
  ("parameters",
    all [
      lit "(",
      sepBy "," (all [
        opt "attribute_item",
        one ["parameter", "self_parameter", "variadic_parameter", lit "_", "_type"]]),
      opt (lit ","), lit ")"]),
  ("self_parameter", all [opt (lit "&"), opt "lifetime", opt "mutable_specifier", "self"]),
  ("variadic_parameter",
    all [opt "mutable_specifier", opt (all [.field "pattern" "_pattern", lit ":"]), lit "..."]),
  ("parameter",
    all [
      opt "mutable_specifier", .field "pattern" (one ["_pattern", "self"]), lit ":",
      .field "type" "_type"]),
  ("extern_modifier", all [lit "extern", opt (one ["string_literal", "raw_string_literal"])]),
  ("visibility_modifier",
    one [
      "crate",
      all [
        lit "pub",
        opt (all [lit "(", one ["self", "super", "crate", all [lit "in", "_path"]], lit ")"])]])]

/-- Types. -/
def typeRules : List (String × Rule) := [
  ("_type",
    one [
      "abstract_type", "reference_type", "metavariable", "pointer_type", "generic_type",
      "scoped_type_identifier", "tuple_type", "unit_type", "array_type", "function_type",
      "_type_identifier", "macro_invocation", "never_type", "dynamic_type", "bounded_type",
      "removed_trait_bound", showAs "primitive_type" primitiveTypes]),
  ("bracketed_type", all [lit "<", one ["_type", "qualified_type"], lit ">"]),
  ("qualified_type", all [.field "type" "_type", lit "as", .field "alias" "_type"]),
  ("lifetime", rank 1 (all [lit "'", "identifier"])),
  ("array_type",
    all [
      lit "[", .field "element" "_type", opt (all [lit ";", .field "length" "_expression"]),
      lit "]"]),
  ("for_lifetimes", all [lit "for", lit "<", sepBy1 "," "lifetime", opt (lit ","), lit ">"]),
  ("function_type",
    all [
      opt "for_lifetimes",
      rank 15 (all [
        one [
          .field "trait" (one ["_type_identifier", "scoped_type_identifier"]),
          all [opt "function_modifiers", lit "fn"]],
        .field "parameters" "parameters"]),
      opt (all [lit "->", .field "return_type" "_type"])]),
  ("tuple_type", all [lit "(", sepBy1 "," "_type", opt (lit ","), lit ")"]),
  ("unit_type", all [lit "(", lit ")"]),
  ("generic_function",
    rank 1 (all [
      .field "function" (one ["identifier", "scoped_identifier", "field_expression"]), lit "::",
      .field "type_arguments" "type_arguments"])),
  ("generic_type",
    rank 1 (all [
      .field "type" (one ["_type_identifier", "_reserved_identifier", "scoped_type_identifier"]),
      .field "type_arguments" "type_arguments"])),
  ("generic_type_with_turbofish",
    all [
      .field "type" (one ["_type_identifier", "scoped_identifier"]), lit "::",
      .field "type_arguments" "type_arguments"]),
  ("bounded_type",
    rankLeft (-1) (all [
      one ["lifetime", "_type", "use_bounds"], lit "+", one ["lifetime", "_type", "use_bounds"]])),
  ("use_bounds",
    all [
      lit "use", .token argumentsOpen, sepBy "," (one ["lifetime", "_type_identifier"]),
      opt (lit ","), lit ">"]),
  ("type_arguments",
    all [
      .token argumentsOpen,
      sepBy1 "," (all [
        one ["_type", "type_binding", "lifetime", "_literal", "block"], opt "trait_bounds"]),
      opt (lit ","), lit ">"]),
  ("type_binding",
    all [
      .field "name" "_type_identifier", .field "type_arguments" (opt "type_arguments"), lit "=",
      .field "type" "_type"]),
  ("reference_type",
    all [lit "&", opt "lifetime", opt "mutable_specifier", .field "type" "_type"]),
  ("pointer_type", all [lit "*", one [lit "const", "mutable_specifier"], .field "type" "_type"]),
  ("never_type", lit "!"),
  ("abstract_type",
    all [
      lit "impl", opt (all [lit "for", "type_parameters"]),
      .field "trait" (rank 1 (one [
        "_type_identifier", "scoped_type_identifier", "removed_trait_bound", "generic_type",
        "function_type", "tuple_type", "bounded_type"]))]),
  ("dynamic_type",
    all [
      lit "dyn",
      .field "trait" (one [
        "higher_ranked_trait_bound", "_type_identifier", "scoped_type_identifier", "generic_type",
        "function_type", "tuple_type"])]),
  ("mutable_specifier", lit "mut")]

/-- Expressions. -/
def expressionRules : List (String × Rule) := [
  ("_expression_except_range",
    one [
      "unary_expression", "reference_expression", "try_expression", "binary_expression",
      "assignment_expression", "compound_assignment_expr", "type_cast_expression",
      "call_expression", "return_expression", "yield_expression", "_literal",
      rankLeft 0 "identifier", showAs "identifier" primitiveTypes,
      rankLeft 0 "_reserved_identifier", "self", "scoped_identifier", "generic_function",
      "await_expression", "field_expression", "array_expression", "tuple_expression",
      rank 1 "macro_invocation", "unit_expression", "break_expression", "continue_expression",
      "index_expression", "metavariable", "closure_expression", "parenthesized_expression",
      "struct_expression", "_expression_ending_with_block"]),
  ("_expression", one ["_expression_except_range", "range_expression"]),
  ("_expression_ending_with_block",
    one [
      "unsafe_block", "async_block", "gen_block", "try_block", "block", "if_expression",
      "match_expression", "while_expression", "loop_expression", "for_expression", "const_block"]),
  ("macro_invocation",
    all [
      .field "macro" (one ["scoped_identifier", "identifier", "_reserved_identifier"]), lit "!",
      showAs "token_tree" "delim_token_tree"]),
  ("delim_token_tree",
    one [
      all [lit "(", many "_delim_tokens", lit ")"], all [lit "[", many "_delim_tokens", lit "]"],
      all [lit "\x7b", many "_delim_tokens", lit "\x7d"]]),
  ("_delim_tokens", one ["_non_delim_token", showAs "token_tree" "delim_token_tree"]),
  ("_non_delim_token", one ["_non_special_token", lit "$"]),
  ("scoped_identifier",
    all [
      .field "path" (opt (one [
        "_path", "bracketed_type", showAs "generic_type" "generic_type_with_turbofish"])),
      lit "::", .field "name" (one ["identifier", "super"])]),
  ("scoped_type_identifier_in_expression_position",
    rank (-2) (all [
      .field "path" (opt (one ["_path", showAs "generic_type" "generic_type_with_turbofish"])),
      lit "::", .field "name" "_type_identifier"])),
  ("scoped_type_identifier",
    all [
      .field "path" (opt (one [
        "_path", showAs "generic_type" "generic_type_with_turbofish", "bracketed_type",
        "generic_type"])),
      lit "::", .field "name" "_type_identifier"]),
  ("range_expression",
    rankLeft 1 (one [
      all ["_expression", lits ["..", "...", "..="], "_expression"],
      all ["_expression", lit ".."], all [lit "..", "_expression"], lit ".."])),
  ("unary_expression", rank 12 (all [lits ["-", "*", "!"], "_expression"])),
  ("try_expression", rank 13 (all ["_expression", lit "?"])),
  ("reference_expression",
    rank 12 (all [
      lit "&",
      one [all [lit "raw", one [lit "const", "mutable_specifier"]], opt "mutable_specifier"],
      .field "value" "_expression"])),
  ("binary_expression",
    one [
      rankLeft 3 (all [
        .field "left" "_expression", .field "operator" (lit "&&"), .field "right" "_expression"]),
      rankLeft 2 (all [
        .field "left" "_expression", .field "operator" (lit "||"), .field "right" "_expression"]),
      rankLeft 7 (all [
        .field "left" "_expression", .field "operator" (lit "&"), .field "right" "_expression"]),
      rankLeft 5 (all [
        .field "left" "_expression", .field "operator" (lit "|"), .field "right" "_expression"]),
      rankLeft 6 (all [
        .field "left" "_expression", .field "operator" (lit "^"), .field "right" "_expression"]),
      rankLeft 4 (all [
        .field "left" "_expression", .field "operator" (lits ["==", "!=", "<", "<=", ">", ">="]),
        .field "right" "_expression"]),
      rankLeft 8 (all [
        .field "left" "_expression", .field "operator" (lits ["<<", ">>"]),
        .field "right" "_expression"]),
      rankLeft 9 (all [
        .field "left" "_expression", .field "operator" (lits ["+", "-"]),
        .field "right" "_expression"]),
      rankLeft 10 (all [
        .field "left" "_expression", .field "operator" (lits ["*", "/", "%"]),
        .field "right" "_expression"])]),
  ("assignment_expression",
    rankLeft 0 (all [.field "left" "_expression", lit "=", .field "right" "_expression"])),
  ("compound_assignment_expr",
    rankLeft 0 (all [
      .field "left" "_expression",
      .field "operator" (lits ["+=", "-=", "*=", "/=", "%=", "&=", "|=", "^=", "<<=", ">>="]),
      .field "right" "_expression"])),
  ("type_cast_expression",
    rankLeft 11 (all [.field "value" "_expression", lit "as", .field "type" "_type"])),
  ("return_expression",
    one [rankLeft 0 (all [lit "return", "_expression"]), rank (-1) (lit "return")]),
  ("yield_expression",
    one [rankLeft 0 (all [lit "yield", "_expression"]), rank (-1) (lit "yield")]),
  ("call_expression",
    rank 15 (all [.field "function" "_expression_except_range", .field "arguments" "arguments"])),
  ("arguments",
    all [lit "(", sepBy "," (all [many "attribute_item", "_expression"]), opt (lit ","), lit ")"]),
  ("array_expression",
    all [
      lit "[", many "attribute_item",
      one [
        all ["_expression", lit ";", .field "length" "_expression"],
        all [sepBy "," (all [many "attribute_item", "_expression"]), opt (lit ",")]],
      lit "]"]),
  ("parenthesized_expression", all [lit "(", "_expression", lit ")"]),
  ("tuple_expression",
    all [
      lit "(", many "attribute_item", all ["_expression", lit ","],
      many (all ["_expression", lit ","]), opt "_expression", lit ")"]),
  ("unit_expression", all [lit "(", lit ")"]),
  ("struct_expression",
    all [
      .field "name" (one [
        "_type_identifier",
        showAs "scoped_type_identifier" "scoped_type_identifier_in_expression_position",
        "generic_type_with_turbofish"]),
      .field "body" "field_initializer_list"]),
  ("field_initializer_list",
    all [
      lit "\x7b",
      sepBy "," (one [
        "shorthand_field_initializer", "field_initializer", "base_field_initializer"]),
      opt (lit ","), lit "\x7d"]),
  ("shorthand_field_initializer", all [many "attribute_item", "identifier"]),
  ("field_initializer",
    all [
      many "attribute_item", .field "field" (one ["_field_identifier", "integer_literal"]),
      lit ":", .field "value" "_expression"]),
  ("base_field_initializer", all [lit "..", "_expression"]),
  ("if_expression",
    rankRight 0 (all [
      lit "if", .field "condition" "_condition", .field "consequence" "block",
      opt (.field "alternative" "else_clause")])),
  ("let_condition",
    all [
      lit "let", .field "pattern" "_pattern", lit "=", .field "value" (rankLeft 3 "_expression")]),
  ("_let_chain",
    rankLeft 3 (one [
      all ["_let_chain", lit "&&", "let_condition"], all ["_let_chain", lit "&&", "_expression"],
      all ["let_condition", lit "&&", "_expression"],
      all ["let_condition", lit "&&", "let_condition"],
      all ["_expression", lit "&&", "let_condition"]])),
  ("_condition", one ["_expression", "let_condition", showAs "let_chain" "_let_chain"]),
  ("else_clause", all [lit "else", one ["block", "if_expression"]]),
  ("match_expression",
    all [lit "match", .field "value" "_expression", .field "body" "match_block"]),
  ("match_block",
    all [
      lit "\x7b", opt (all [many "match_arm", showAs "match_arm" "last_match_arm"]), lit "\x7d"]),
  ("match_arm",
    rankRight 0 (all [
      many (one ["attribute_item", "inner_attribute_item"]), .field "pattern" "match_pattern",
      lit "=>",
      one [
        all [.field "value" "_expression", lit ","],
        .field "value" (rank 1 "_expression_ending_with_block")]])),
  ("last_match_arm",
    all [
      many (one ["attribute_item", "inner_attribute_item"]), .field "pattern" "match_pattern",
      lit "=>", .field "value" "_expression", opt (lit ",")]),
  ("match_pattern", all ["_pattern", opt (all [lit "if", .field "condition" "_condition"])]),
  ("while_expression",
    all [
      opt (all ["label", lit ":"]), lit "while", .field "condition" "_condition",
      .field "body" "block"]),
  ("loop_expression", all [opt (all ["label", lit ":"]), lit "loop", .field "body" "block"]),
  ("for_expression",
    all [
      opt (all ["label", lit ":"]), lit "for", .field "pattern" "_pattern", lit "in",
      .field "value" "_expression", .field "body" "block"]),
  ("const_block", all [lit "const", .field "body" "block"]),
  ("closure_expression",
    rank (-1) (all [
      opt (lit "static"), opt (lit "async"), opt (lit "move"),
      .field "parameters" "closure_parameters",
      one [
        all [opt (all [lit "->", .field "return_type" "_type"]), .field "body" "block"],
        .field "body" (one ["_expression", lit "_"])]])),
  ("closure_parameters", all [lit "|", sepBy "," (one ["_pattern", "parameter"]), lit "|"]),
  ("label", all [lit "'", "identifier"]),
  ("break_expression", rankLeft 0 (all [lit "break", opt "label", opt "_expression"])),
  ("continue_expression", rankLeft 0 (all [lit "continue", opt "label"])),
  ("index_expression", rank 15 (all ["_expression", lit "[", "_expression", lit "]"])),
  ("await_expression", rank 14 (all ["_expression", lit ".", lit "await"])),
  ("field_expression",
    rank 14 (all [
      .field "value" "_expression", lit ".",
      .field "field" (one ["_field_identifier", "integer_literal"])])),
  ("unsafe_block", all [lit "unsafe", "block"]),
  ("async_block", all [lit "async", opt (lit "move"), "block"]),
  ("gen_block", all [lit "gen", opt (lit "move"), "block"]),
  ("try_block", all [lit "try", "block"]),
  ("block",
    all [
      opt (all ["label", lit ":"]), lit "\x7b", many "_statement", opt "_expression", lit "\x7d"])]

/-- Patterns. -/
def patternRules : List (String × Rule) := [
  ("_pattern",
    one [
      "_literal_pattern", showAs "identifier" primitiveTypes, "identifier", "scoped_identifier",
      "generic_pattern", "tuple_pattern", "tuple_struct_pattern", "struct_pattern",
      "_reserved_identifier", "ref_pattern", "slice_pattern", "captured_pattern",
      "reference_pattern", "remaining_field_pattern", "mut_pattern", "range_pattern",
      "or_pattern", "const_block", "macro_invocation", lit "_"]),
  ("generic_pattern",
    all [
      one ["identifier", "scoped_identifier"], lit "::", .field "type_arguments" "type_arguments"]),
  ("tuple_pattern",
    all [lit "(", sepBy "," (one ["_pattern", "closure_expression"]), opt (lit ","), lit ")"]),
  ("slice_pattern", all [lit "[", sepBy "," "_pattern", opt (lit ","), lit "]"]),
  ("tuple_struct_pattern",
    all [
      .field "type" (one [
        "identifier", "scoped_identifier", showAs "generic_type" "generic_type_with_turbofish"]),
      lit "(", sepBy "," "_pattern", opt (lit ","), lit ")"]),
  ("struct_pattern",
    all [
      .field "type" (one ["_type_identifier", "scoped_type_identifier"]), lit "\x7b",
      sepBy "," (one ["field_pattern", "remaining_field_pattern"]), opt (lit ","), lit "\x7d"]),
  ("field_pattern",
    all [
      opt (lit "ref"), opt "mutable_specifier",
      one [
        .field "name" (showAs "shorthand_field_identifier" "identifier"),
        all [.field "name" "_field_identifier", lit ":", .field "pattern" "_pattern"]]]),
  ("remaining_field_pattern", lit ".."),
  ("mut_pattern", rank (-1) (all ["mutable_specifier", "_pattern"])),
  ("range_pattern",
    one [
      all [
        one ["_literal_pattern", "_path"],
        one [all [lits ["...", "..=", ".."], one ["_literal_pattern", "_path"]], lit ".."]],
      all [lits ["..=", ".."], one ["_literal_pattern", "_path"]]]),
  ("ref_pattern", all [lit "ref", "_pattern"]),
  ("captured_pattern", all ["identifier", lit "@", "_pattern"]),
  ("reference_pattern", all [lit "&", opt "mutable_specifier", "_pattern"]),
  ("or_pattern",
    rankLeft (-2) (one [all ["_pattern", lit "|", "_pattern"], all [lit "|", "_pattern"]]))]

/-- Literals, comments, paths and single tokens. -/
def literalRules : List (String × Rule) := [
  ("_literal",
    one [
      "string_literal", "raw_string_literal", "char_literal", "boolean_literal",
      "integer_literal", "float_literal"]),
  ("_literal_pattern",
    one [
      "string_literal", "raw_string_literal", "char_literal", "boolean_literal",
      "integer_literal", "float_literal", "negative_literal"]),
  ("negative_literal", all [lit "-", one ["integer_literal", "float_literal"]]),
  ("integer_literal", .token integerLiteral),
  ("string_literal",
    all [
      .shown ⟨"\"", false⟩ (.token stringOpen), many (one ["escape_sequence", "string_content"]),
      .token stringClose]),
  ("raw_string_literal",
    all [
      "_raw_string_literal_start", showAs "string_content" "raw_string_literal_content",
      "_raw_string_literal_end"]),
  ("char_literal", .token charLiteral),
  ("escape_sequence", .token escapeSequence),
  ("boolean_literal", lits ["true", "false"]),
  ("line_comment",
    all [
      lit "//",
      one [
        all [.token moreSlashes, .token restOfLine],
        all ["_line_doc_comment_marker", .field "doc" (showAs "doc_comment" "_line_doc_content")],
        .token lineText]]),
  ("_line_doc_comment_marker",
    one [
      .field "outer" (showAs "outer_doc_comment_marker" "_outer_line_doc_comment_marker"),
      .field "inner" (showAs "inner_doc_comment_marker" "_inner_line_doc_comment_marker")]),
  ("_inner_line_doc_comment_marker", .token innerLineMark),
  ("_outer_line_doc_comment_marker", .token outerLineMark),
  ("block_comment",
    all [
      lit "/*",
      opt (one [
        all [
          "_block_doc_comment_marker",
          opt (.field "doc" (showAs "doc_comment" "_block_comment_content"))],
        "_block_comment_content"]),
      lit "*/"]),
  ("_block_doc_comment_marker",
    one [
      .field "outer" (showAs "outer_doc_comment_marker" "_outer_block_doc_comment_marker"),
      .field "inner" (showAs "inner_doc_comment_marker" "_inner_block_doc_comment_marker")]),
  ("_path",
    one [
      "self", showAs "identifier" primitiveTypes, "metavariable", "super", "crate", "identifier",
      "scoped_identifier", "_reserved_identifier"]),
  ("identifier", .token identifier),
  ("shebang", .token shebang),
  ("_reserved_identifier", showAs "identifier" (lits ["default", "union", "gen", "raw"])),
  ("_type_identifier", showAs "type_identifier" "identifier"),
  ("_field_identifier", showAs "field_identifier" "identifier"),
  ("self", lit "self"),
  ("super", lit "super"),
  ("crate", lit "crate"),
  ("metavariable", .token metavariable)]

end Rust

/-- The grammar of Rust source files. -/
def rust : RuleSet where
  rules :=
    Rust.sourceRules ++ Rust.itemRules ++ Rust.typeRules ++ Rust.expressionRules ++
      Rust.patternRules ++ Rust.literalRules
  word := "identifier"
  comments := ["line_comment", "block_comment"]
  scanned := [
    "string_content", "_raw_string_literal_start", "raw_string_literal_content",
    "_raw_string_literal_end", "float_literal", "_outer_block_doc_comment_marker",
    "_inner_block_doc_comment_marker", "_block_comment_content", "_line_doc_content",
    "_error_sentinel"]
  families := [
    "_expression", "_type", "_literal", "_literal_pattern", "_declaration_statement", "_pattern"]
  inlined := [
    "_path", "_type_identifier", "_tokens", "_field_identifier", "_non_special_token",
    "_declaration_statement", "_reserved_identifier", "_expression_ending_with_block"]

end PubSweep.Grammar
