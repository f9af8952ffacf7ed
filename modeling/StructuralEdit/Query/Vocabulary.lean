/-
  StructuralEdit.Query.Vocabulary
  ───────────────────────────────
  **WHAT A QUERY OF A LANGUAGE MAY SPEAK OF.**

  A query names node kinds, tokens and fields, and a name that the grammar does
  not have is an error.  A vocabulary lists the names of one grammar; where it
  lists none, every name is taken on trust.

  For some kinds the vocabulary also knows their `Content`: which children may
  stand below them, in what order.  From that one can tell that a pattern can
  never match.
-/
import StructuralEdit.Cut
import StructuralEdit.Language

namespace StructuralEdit

/-! ## §1. Vocabularies. -/

/-- The children that a kind of node can have, in order. -/
inductive Content where
  /-- One child: its kind, whether it is named, and its field. -/
  | child (kind : String) (named : Bool) (field : Option String)
  | nothing
  | sequence (a b : Content)
  | either (a b : Content)
  /-- Any number of times. -/
  | many (a : Content)
  deriving Repr

/-- Kinds that a grammar lumps together under one name; a node stored under one
of the fields `except` is not meant. -/
structure Family where
  name : String
  members : List String
  except : List String := []
  deriving Repr

/-- The names a grammar knows; `none` knows every name. -/
structure Vocabulary where
  kinds : Option (List String) := none
  tokens : Option (List String) := none
  fields : Option (List String) := none
  families : List Family := []
  /-- The kinds without named structure below them. -/
  leaves : List String := []
  contents : List (String × Content) := []
  /-- The kinds that may stand anywhere. -/
  extras : List String := []
  deriving Repr

namespace Vocabulary

/-- The name is in a list, or there is no list. -/
def lists (names : Option (List String)) (name : String) : Bool :=
  match names with
  | none => true
  | some names => names.contains name

/-- The grammar has named nodes of this kind. -/
def hasKind (v : Vocabulary) (name : String) : Bool :=
  lists v.kinds name

/-- The grammar has this token. -/
def hasToken (v : Vocabulary) (name : String) : Bool :=
  lists v.tokens name

/-- The grammar has this field. -/
def hasField (v : Vocabulary) (name : String) : Bool :=
  lists v.fields name

/-- The family of this name. -/
def family? (v : Vocabulary) (name : String) : Option Family :=
  v.families.find? (·.name == name)

end Vocabulary

/-- A node of this kind, stored under this field, belongs to the family. -/
def Family.has (f : Family) (kind : String) (field : Option String) : Bool :=
  f.members.contains kind && !field.any f.except.contains

/-! ## §2. The grammars. -/

/-- Names between blanks. -/
def words (s : String) : List String :=
  (cutAt '\n' s).flatMap fun line => (cutAt ' ' line).filter (· != "")

namespace Vocabulary

/-- The kinds of JSON values. -/
def jsonValues : List String :=
  ["object", "array", "number", "string", "true", "false", "null"]

/-- A JSON value, stored under a field. -/
def jsonValue (field : Option String) : Content :=
  jsonValues.foldr (fun kind rest => .either (.child kind true field) rest) (.child "null" true field)

/-- Items between two tokens, divided by commas. -/
def commaList (opening closing : String) (item : Content) : Content :=
  let token (s : String) : Content := .child s false none
  let items : Content := .sequence item (.many (.sequence (token ",") item))
  .sequence (token opening) (.sequence (.either .nothing items) (token closing))

/-- The grammar of JSON. -/
def json : Vocabulary where
  kinds := some (words "document object pair array string string_content escape_sequence
    number true false null comment")
  tokens := some ["\x7b", "\x7d", "[", "]", ",", ":", "\""]
  fields := some ["key", "value"]
  families := [{ name := "_value", members := jsonValues, except := ["key"] }]
  leaves := words "string_content escape_sequence number true false null comment"
  contents :=
    [("document", .many (jsonValue none)),
      ("object", commaList "\x7b" "\x7d" (.child "pair" true none)),
      ("pair",
        .sequence (.either (.child "string" true (some "key")) (.child "number" true (some "key")))
          (.sequence (.child ":" false none) (jsonValue (some "value")))),
      ("array", commaList "[" "]" (jsonValue none)),
      ("string",
        .sequence (.child "\"" false none)
          (.sequence
            (.many (.either (.child "string_content" true none) (.child "escape_sequence" true none)))
            (.child "\"" false none)))]
  extras := ["comment"]

/-- The node kinds of Rust. -/
def rustKinds : List String :=
  words "abstract_type arguments array_expression array_type assignment_expression
    associated_type async_block attribute attribute_item await_expression
    base_field_initializer binary_expression block block_comment boolean_literal
    bounded_type bracketed_type break_expression call_expression captured_pattern
    char_literal closure_expression closure_parameters compound_assignment_expr
    const_block const_item const_parameter continue_expression crate declaration_list
    doc_comment dynamic_type else_clause empty_statement enum_item enum_variant
    enum_variant_list escape_sequence expression_statement extern_crate_declaration
    extern_modifier field_declaration field_declaration_list field_expression
    field_identifier field_initializer field_initializer_list field_pattern
    float_literal for_expression for_lifetimes foreign_mod_item fragment_specifier
    function_item function_modifiers function_signature_item function_type gen_block
    generic_function generic_pattern generic_type generic_type_with_turbofish
    higher_ranked_trait_bound identifier if_expression impl_item index_expression
    inner_attribute_item inner_doc_comment_marker integer_literal label let_chain
    let_condition let_declaration lifetime lifetime_parameter line_comment
    loop_expression macro_definition macro_invocation macro_rule match_arm match_block
    match_expression match_pattern metavariable mod_item mut_pattern mutable_specifier
    negative_literal never_type or_pattern ordered_field_declaration_list
    outer_doc_comment_marker parameter parameters parenthesized_expression pointer_type
    primitive_type qualified_type range_expression range_pattern raw_string_literal
    ref_pattern reference_expression reference_pattern reference_type
    remaining_field_pattern removed_trait_bound return_expression scoped_identifier
    scoped_type_identifier scoped_use_list self self_parameter shebang
    shorthand_field_identifier shorthand_field_initializer slice_pattern source_file
    static_item string_content string_literal struct_expression struct_item
    struct_pattern super token_binding_pattern token_repetition token_repetition_pattern
    token_tree token_tree_pattern trait_bounds trait_item try_block try_expression
    tuple_expression tuple_pattern tuple_struct_pattern tuple_type type_arguments
    type_binding type_cast_expression type_identifier type_item type_parameter
    type_parameters unary_expression union_item unit_expression unit_type unsafe_block
    use_as_clause use_bounds use_declaration use_list use_wildcard variadic_parameter
    visibility_modifier where_clause where_predicate while_expression yield_expression"

/-- The fields of Rust. -/
def rustFields : List String :=
  words "alias alternative argument arguments body bounds condition consequence default_type
    doc element field function inner left length list macro name operator outer
    parameters path pattern return_type right trait type type_arguments type_parameters
    value"

/-- The node kinds of JavaScript. -/
def javaScriptKinds : List String :=
  words "arguments array array_pattern arrow_function assignment_expression
    assignment_pattern augmented_assignment_expression await_expression
    binary_expression break_statement call_expression catch_clause class class_body
    class_declaration class_heritage class_static_block comment computed_property_name
    continue_statement debugger_statement decorator do_statement else_clause
    empty_statement escape_sequence export_clause export_specifier export_statement
    expression_statement false field_definition finally_clause for_in_statement
    for_statement formal_parameters function_declaration function_expression
    generator_function generator_function_declaration hash_bang_line
    html_character_reference html_comment identifier if_statement import
    import_attribute import_clause import_specifier import_statement jsx_attribute
    jsx_closing_element jsx_element jsx_expression jsx_namespace_name
    jsx_opening_element jsx_self_closing_element jsx_text labeled_statement
    lexical_declaration member_expression meta_property method_definition named_imports
    namespace_export namespace_import new_expression null number object
    object_assignment_pattern object_pattern optional_chain pair pair_pattern
    parenthesized_expression private_property_identifier program property_identifier
    regex regex_flags regex_pattern rest_pattern return_statement sequence_expression
    shorthand_property_identifier shorthand_property_identifier_pattern spread_element
    statement_block statement_identifier string string_fragment subscript_expression
    super switch_body switch_case switch_default switch_statement template_string
    template_substitution ternary_expression this throw_statement true try_statement
    unary_expression undefined update_expression using_declaration variable_declaration
    variable_declarator while_statement with_statement yield_expression"

/-- The fields of JavaScript. -/
def javaScriptFields : List String :=
  words "alias alternative argument arguments attribute body close_tag condition consequence
    constructor declaration decorator finalizer flags function handler increment index
    initializer key kind label left member name object open_tag operator parameter
    parameters pattern property right source template value"

/-- The node kinds of TypeScript. -/
def typeScriptKinds : List String :=
  words "abstract_class_declaration abstract_method_signature accessibility_modifier
    adding_type_annotation ambient_declaration arguments array array_pattern array_type
    arrow_function as_expression asserts asserts_annotation assignment_expression
    assignment_pattern augmented_assignment_expression await_expression
    binary_expression break_statement call_expression call_signature catch_clause class
    class_body class_declaration class_heritage class_static_block comment
    computed_property_name conditional_type constraint construct_signature
    constructor_type continue_statement debugger_statement decorator default_type
    do_statement else_clause empty_statement enum_assignment enum_body enum_declaration
    escape_sequence existential_type export_clause export_specifier export_statement
    expression_statement extends_clause extends_type_clause false field_definition
    finally_clause flow_maybe_type for_in_statement for_statement formal_parameters
    function_declaration function_expression function_signature function_type
    generator_function generator_function_declaration generic_type hash_bang_line
    html_character_reference html_comment identifier if_statement implements_clause import
    import_alias import_attribute import_clause import_require_clause
    import_specifier import_statement index_signature index_type_query infer_type
    instantiation_expression interface_body interface_declaration internal_module
    intersection_type jsx_attribute jsx_closing_element jsx_element jsx_expression
    jsx_namespace_name jsx_opening_element jsx_self_closing_element jsx_text
    labeled_statement lexical_declaration literal_type lookup_type mapped_type_clause
    member_expression meta_property method_definition method_signature module
    named_imports namespace_export namespace_import nested_identifier
    nested_type_identifier new_expression non_null_expression null number object
    object_assignment_pattern object_pattern object_type omitting_type_annotation
    opting_type_annotation optional_chain optional_parameter optional_type
    override_modifier pair pair_pattern parenthesized_expression parenthesized_type
    predefined_type private_property_identifier program property_identifier
    property_signature public_field_definition readonly_type regex regex_flags
    regex_pattern required_parameter rest_pattern rest_type return_statement
    satisfies_expression sequence_expression shorthand_property_identifier
    shorthand_property_identifier_pattern spread_element statement_block
    statement_identifier string string_fragment subscript_expression super switch_body
    switch_case switch_default switch_statement template_literal_type template_string
    template_substitution template_type ternary_expression this this_type
    throw_statement true try_statement tuple_type type_alias_declaration type_annotation
    type_arguments type_assertion type_identifier type_parameter type_parameters
    type_predicate type_predicate_annotation type_query unary_expression undefined
    union_type update_expression using_declaration variable_declaration
    variable_declarator while_statement with_statement yield_expression"

/-- The fields of TypeScript. -/
def typeScriptFields : List String :=
  words "alias alternative argument arguments attribute body close_tag condition consequence
    constraint constructor declaration decorator finalizer flags function handler
    increment index index_type initializer key kind label left member module name object
    open_tag operator parameter parameters pattern property return_type right sign
    source template type type_arguments type_parameters value"

/-- The node kinds of Python. -/
def pythonKinds : List String :=
  words "aliased_import argument_list as_pattern as_pattern_target assert_statement
    assignment attribute augmented_assignment await binary_operator block
    boolean_operator break_statement call case_clause case_pattern chevron
    class_definition class_pattern comment comparison_operator complex_pattern
    concatenated_string conditional_expression constrained_type continue_statement
    decorated_definition decorator default_parameter delete_statement dict_pattern
    dictionary dictionary_comprehension dictionary_splat dictionary_splat_pattern
    dotted_name elif_clause ellipsis else_clause escape_interpolation escape_sequence
    except_clause except_group_clause exec_statement expression_list
    expression_statement false finally_clause float for_in_clause for_statement
    format_expression format_specifier function_definition future_import_statement
    generator_expression generic_type global_statement identifier if_clause if_statement
    import_from_statement import_prefix import_statement integer interpolation
    keyword_argument keyword_pattern keyword_separator lambda lambda_parameters
    line_continuation list list_comprehension list_pattern list_splat list_splat_pattern
    match_statement member_type module named_expression none nonlocal_statement
    not_operator pair parameters parenthesized_expression parenthesized_list_splat
    pass_statement pattern_list positional_separator print_statement raise_statement
    relative_import return_statement set set_comprehension slice splat_pattern
    splat_type string string_content string_end string_start subscript true
    try_statement tuple tuple_pattern type type_alias_statement type_conversion
    type_parameter typed_default_parameter typed_parameter unary_operator union_pattern
    union_type while_statement wildcard_import with_clause with_item with_statement
    yield"

/-- The fields of Python. -/
def pythonFields : List String :=
  words "alias alternative argument arguments attribute body cause code condition consequence
    definition expression format_specifier function guard key left module_name name
    object operator operators parameters return_type right subject subscript
    superclasses type type_conversion type_parameters value"

/-- The node kinds of Go. -/
def goKinds : List String :=
  words "argument_list array_type assignment_statement binary_expression blank_identifier
    block break_statement call_expression channel_type comment communication_case
    composite_literal const_declaration const_spec continue_statement dec_statement
    default_case defer_statement dot empty_statement escape_sequence expression_case
    expression_list expression_statement expression_switch_statement
    fallthrough_statement false field_declaration field_declaration_list
    field_identifier float_literal for_clause for_statement func_literal
    function_declaration function_type generic_type go_statement goto_statement
    identifier if_statement imaginary_literal implicit_length_array_type
    import_declaration import_spec import_spec_list inc_statement index_expression
    int_literal interface_type interpreted_string_literal
    interpreted_string_literal_content iota keyed_element label_name labeled_statement
    literal_element literal_value map_type method_declaration method_elem negated_type
    nil package_clause package_identifier parameter_declaration parameter_list
    parenthesized_expression parenthesized_type pointer_type qualified_type range_clause
    raw_string_literal raw_string_literal_content receive_statement return_statement
    rune_literal select_statement selector_expression send_statement
    short_var_declaration slice_expression slice_type source_file statement_list
    struct_type true type_alias type_arguments type_assertion_expression type_case
    type_constraint type_conversion_expression type_declaration type_elem
    type_identifier type_instantiation_expression type_parameter_declaration
    type_parameter_list type_spec type_switch_statement unary_expression var_declaration
    var_spec var_spec_list variadic_argument variadic_parameter_declaration"

/-- The fields of Go. -/
def goFields : List String :=
  words "alias alternative arguments body capacity channel communication condition
    consequence element end field function index initializer key label left length name
    operand operator package parameters path receiver result right start tag type
    type_arguments type_parameters update value"

/-- The node kinds of C. -/
def cKinds : List String :=
  words "abstract_array_declarator abstract_function_declarator
    abstract_parenthesized_declarator abstract_pointer_declarator alignas_qualifier
    alignof_expression argument_list array_declarator assignment_expression attribute
    attribute_declaration attribute_specifier attributed_declarator attributed_statement
    binary_expression bitfield_clause break_statement call_expression case_statement
    cast_expression char_literal character comma_expression comment
    compound_literal_expression compound_statement concatenated_string
    conditional_expression continue_statement declaration declaration_list do_statement
    else_clause enum_specifier enumerator enumerator_list escape_sequence
    expression_statement extension_expression false field_declaration
    field_declaration_list field_designator field_expression field_identifier
    for_statement function_declarator function_definition generic_expression
    gnu_asm_clobber_list gnu_asm_expression gnu_asm_goto_list gnu_asm_input_operand
    gnu_asm_input_operand_list gnu_asm_output_operand gnu_asm_output_operand_list
    gnu_asm_qualifier goto_statement identifier if_statement init_declarator
    initializer_list initializer_pair labeled_statement linkage_specification
    macro_type_specifier ms_based_modifier ms_call_modifier ms_declspec_modifier
    ms_pointer_modifier ms_restrict_modifier ms_signed_ptr_modifier
    ms_unaligned_ptr_modifier ms_unsigned_ptr_modifier null number_literal
    offsetof_expression parameter_declaration parameter_list parenthesized_declarator
    parenthesized_expression pointer_declarator pointer_expression preproc_arg
    preproc_call preproc_def preproc_defined preproc_directive preproc_elif
    preproc_elifdef preproc_else preproc_function_def preproc_if preproc_ifdef
    preproc_include preproc_params primitive_type return_statement seh_except_clause
    seh_finally_clause seh_leave_statement seh_try_statement sized_type_specifier
    sizeof_expression statement_identifier storage_class_specifier string_content
    string_literal struct_specifier subscript_designator subscript_expression
    subscript_range_designator switch_statement system_lib_string translation_unit true
    type_definition type_descriptor type_identifier type_qualifier unary_expression
    union_specifier update_expression variadic_parameter while_statement"

/-- The fields of C. -/
def cFields : List String :=
  words "alternative argument arguments assembly_code body clobbers condition consequence
    declarator designator directive end field filter function goto_labels index
    initializer input_operands label left member name operand operator output_operands
    parameters path prefix register right size start symbol type underlying_type update
    value"

/-- The node kinds of C++. -/
def cppKinds : List String :=
  words "abstract_array_declarator abstract_function_declarator
    abstract_parenthesized_declarator abstract_pointer_declarator
    abstract_reference_declarator access_specifier alias_declaration alignas_qualifier
    alignof_expression annotation argument_list array_declarator assignment_expression
    attribute attribute_declaration attribute_specifier attributed_declarator
    attributed_statement auto base_class_clause binary_expression bitfield_clause
    break_statement call_expression case_statement cast_expression catch_clause
    char_literal character class_specifier co_await_expression co_return_statement
    co_yield_statement comma_expression comment compound_literal_expression
    compound_requirement compound_statement concatenated_string concept_definition
    condition_clause conditional_expression consteval_block_declaration
    constraint_conjunction constraint_disjunction continue_statement declaration
    declaration_list decltype default_method_clause delete_expression
    delete_method_clause dependent_name dependent_type destructor_name do_statement
    else_clause enum_specifier enumerator enumerator_list escape_sequence
    expansion_statement explicit_function_specifier
    explicit_object_parameter_declaration expression_statement extension_expression
    false field_declaration field_declaration_list field_designator field_expression
    field_identifier field_initializer field_initializer_list fold_expression
    for_range_loop for_statement friend_declaration function_declarator
    function_definition generic_expression global_module_fragment_declaration
    gnu_asm_clobber_list gnu_asm_expression gnu_asm_goto_list gnu_asm_input_operand
    gnu_asm_input_operand_list gnu_asm_output_operand gnu_asm_output_operand_list
    gnu_asm_qualifier goto_statement identifier if_statement import_declaration
    init_declarator init_statement initializer_list initializer_pair
    inline_method_clause labeled_statement lambda_capture_initializer
    lambda_capture_specifier lambda_declarator lambda_default_capture lambda_expression
    lambda_specifier linkage_specification literal_suffix macro_type_specifier
    module_declaration module_name module_partition ms_based_modifier ms_call_modifier
    ms_declspec_modifier ms_pointer_modifier ms_restrict_modifier ms_signed_ptr_modifier
    ms_unaligned_ptr_modifier ms_unsigned_ptr_modifier namespace_alias_definition
    namespace_definition namespace_identifier nested_namespace_specifier new_declarator
    new_expression noexcept null number_literal offsetof_expression operator_cast
    operator_name optional_parameter_declaration optional_type_parameter_declaration
    parameter_declaration parameter_list parameter_pack_expansion
    parenthesized_declarator parenthesized_expression placeholder_type_specifier
    pointer_declarator pointer_expression preproc_arg preproc_call preproc_def
    preproc_defined preproc_directive preproc_elif preproc_elifdef preproc_else
    preproc_function_def preproc_if preproc_ifdef preproc_include preproc_params
    primitive_type private_module_fragment_declaration pure_virtual_clause
    qualified_identifier raw_string_content raw_string_delimiter raw_string_literal
    ref_qualifier reference_declarator reflect_expression requirement_seq
    requires_clause requires_expression return_statement seh_except_clause
    seh_finally_clause seh_leave_statement seh_try_statement simple_requirement
    sized_type_specifier sizeof_expression splice_expression splice_specifier
    splice_type_specifier statement_identifier static_assert_declaration
    storage_class_specifier string_content string_literal struct_specifier
    structured_binding_declarator subscript_argument_list subscript_designator
    subscript_expression subscript_range_designator switch_statement system_lib_string
    template_argument_list template_declaration template_function template_instantiation
    template_method template_parameter_list template_template_parameter_declaration
    template_type this throw_specifier throw_statement trailing_return_type
    translation_unit true try_statement type_definition type_descriptor type_identifier
    type_parameter_declaration type_qualifier type_requirement unary_expression
    union_specifier update_expression user_defined_literal using_declaration
    variadic_declarator variadic_parameter variadic_parameter_declaration
    variadic_type_parameter_declaration virtual virtual_specifier while_statement"

/-- The fields of C++. -/
def cppFields : List String :=
  words "alternative argument arguments assembly_code base body captures clobbers condition
    consequence constraint declarator default_type default_value delimiter designator
    directive end field filter friend function goto_labels index indices initializer
    input_operands label left length member message module_name name operand operator
    output_operands parameters path pattern placement prefix register requirements right
    scope size start symbol template_parameters type underlying_type update value"

/-- The node kinds of Java. -/
def javaKinds : List String :=
  words "annotated_type annotation annotation_argument_list annotation_type_body
    annotation_type_declaration annotation_type_element_declaration argument_list
    array_access array_creation_expression array_initializer array_type assert_statement
    assignment_expression asterisk binary_expression binary_integer_literal block
    block_comment boolean_type break_statement cast_expression catch_clause
    catch_formal_parameter catch_type character_literal class_body class_declaration
    class_literal compact_constructor_declaration condition constant_declaration
    constructor_body constructor_declaration continue_statement
    decimal_floating_point_literal decimal_integer_literal dimensions dimensions_expr
    do_statement element_value_array_initializer element_value_pair
    enhanced_for_statement enum_body enum_body_declarations enum_constant
    enum_declaration escape_sequence explicit_constructor_invocation
    exports_module_directive expression_statement extends_interfaces false field_access
    field_declaration finally_clause floating_point_type for_statement formal_parameter
    formal_parameters generic_type guard hex_floating_point_literal hex_integer_literal
    identifier if_statement import_declaration inferred_parameters instanceof_expression
    integral_type interface_body interface_declaration labeled_statement
    lambda_expression line_comment local_variable_declaration marker_annotation
    method_declaration method_invocation method_reference modifiers module_body
    module_declaration multiline_string_fragment null_literal object_creation_expression
    octal_integer_literal opens_module_directive package_declaration
    parenthesized_expression pattern permits program provides_module_directive
    receiver_parameter record_declaration record_pattern record_pattern_body
    record_pattern_component requires_modifier requires_module_directive resource
    resource_specification return_statement scoped_identifier scoped_type_identifier
    spread_parameter static_initializer string_fragment string_interpolation
    string_literal super super_interfaces superclass switch_block
    switch_block_statement_group switch_expression switch_label switch_rule
    synchronized_statement template_expression ternary_expression this throw_statement
    throws true try_statement try_with_resources_statement type_arguments type_bound
    type_identifier type_list type_parameter type_parameters type_pattern
    unary_expression underscore_pattern update_expression uses_module_directive
    variable_declarator void_type while_statement wildcard yield_statement"

/-- The fields of Java. -/
def javaFields : List String :=
  words "alternative argument arguments array body condition consequence constructor
    declarator dimensions element field function index init interfaces key left
    modifiers module modules name object operand operator package parameters pattern
    permits provided provider resources right scope superclass template_argument
    template_processor type type_arguments type_parameters update value"

/-- A grammar of which only the names are known. -/
def named (kinds fields : List String) : Vocabulary where
  kinds := some kinds
  fields := some fields

end Vocabulary

open Vocabulary in
/-- The vocabulary of a language. -/
def Language.vocabulary : Language → Vocabulary
  | json => Vocabulary.json
  | rust => named rustKinds rustFields
  | javaScript => named javaScriptKinds javaScriptFields
  | typeScript | tsx => named typeScriptKinds typeScriptFields
  | python => named pythonKinds pythonFields
  | go => named goKinds goFields
  | c => named cKinds cFields
  | cpp => named cppKinds cppFields
  | java => named javaKinds javaFields
  | _ => {}

end StructuralEdit
