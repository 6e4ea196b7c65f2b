import LeastContext.Syntax.Basic

namespace LeastContext

def DeclKind.word : DeclKind → String
  | .imports => "import"
  | .constants => "const"
  | .types => "type"
  | .variables => "var"

def Decl.tag : Decl → String
  | .func _ => "func"
  | .gen _ => "gen"

def Spec.tag : Spec → String
  | .importing .. => "import"
  | .value .. => "value"
  | .type .. => "type"

def Stmt.tag : Stmt → String
  | .expr _ => "expr"
  | .decl _ => "decl"
  | .assign .. => "assign"
  | .incDec _ => "inc_dec"
  | .returning _ => "return"
  | .block _ => "block"
  | .ifThen .. => "if"
  | .forLoop .. => "for"
  | .range .. => "range"
  | .switch .. => "switch"
  | .typeSwitch .. => "type_switch"
  | .go _ => "go"
  | .defer _ => "defer"
  | .branch _ => "branch"

def ExprForm.tag : ExprForm → String
  | .ident _ => "ident"
  | .literal _ => "lit"
  | .paren _ => "paren"
  | .selector .. => "selector"
  | .call .. => "call"
  | .conversion .. => "conversion"
  | .typeAssert .. => "type_assert"
  | .compositeLit .. => "composite_lit"
  | .keyValue .. => "key_value"
  | .funcLit .. => "func_lit"
  | .unary .. => "unary"
  | .binary .. => "binary"
  | .star _ => "star"
  | .index .. => "index"
  | .sliceOf .. => "slice_expr"
  | .funcType _ => "func_type"
  | .interfaceType _ => "interface_type"
  | .structType _ => "struct_type"
  | .arrayType .. => "array_type"
  | .mapType .. => "map_type"
  | .ellipsis _ => "ellipsis"

end LeastContext
