import Rszero.ApiParser

/-! # The code that is generated from an `.api` file -/

namespace Rszero.Api

structure GeneratedCode where
  types : String
  handlers : String
  routes : String
  deriving DecidableEq

def mapApiType (apiType : List Char) : String :=
  if String.ofList apiType = "string" ∨ String.ofList apiType = "String" then "String"
  else if String.ofList apiType = "int" ∨ String.ofList apiType = "int32" then "i32"
  else if String.ofList apiType = "int64" then "i64"
  else if String.ofList apiType = "bool" then "bool"
  else if String.ofList apiType = "float" ∨ String.ofList apiType = "float32" then "f32"
  else if String.ofList apiType = "float64" then "f64"
  else if _ : apiType.head? = some '[' ∧ apiType.getLast? = some ']' then
    "Vec<" ++ mapApiType apiType.tail.dropLast ++ ">"
  else if "map[".toList <+: apiType then "std::collections::HashMap<String, String>"
  else String.ofList apiType
termination_by apiType.length
decreasing_by
  cases apiType with
  | nil => simp_all
  | cons c cs =>
      simp only [List.tail_cons, List.length_dropLast, List.length_cons]
      omega

def trimMatches (c : Char) (cs : List Char) : List Char :=
  ((cs.dropWhile (· == c)).reverse.dropWhile (· == c)).reverse

def formatTag (tag : String) : String :=
  match tag.toList.dropWhile (· != ':') with
  | [] => tag
  | _ :: rest =>
      let key := String.ofList (tag.toList.takeWhile (· != ':'))
      let value := String.ofList (trimMatches '"' rest)
      if key = "json" then "rename = \"" ++ value ++ "\""
      else key ++ " = \"" ++ value ++ "\""

variable (u : Unicode)

def snakeRest : List Char → List Char
  | [] => []
  | c :: cs =>
      if u.isUppercase c then '_' :: u.lowercase c :: snakeRest cs
      else u.lowercase c :: snakeRest cs

def snakeChars : List Char → List Char
  | [] => []
  | c :: cs => u.lowercase c :: snakeRest u cs

def snakeCase (s : String) : String := String.ofList (snakeChars u s.toList)

def generateField (field : ApiField) : String :=
  let tag :=
    match field.tag with
    | some t => "    #[serde(" ++ formatTag t ++ ")]\n"
    | none => ""
  tag ++ ("    pub " ++ snakeCase u field.name ++ ": " ++ mapApiType field.ty.toList ++ ",\n")

def generateType (ty : ApiType) : String :=
  "#[derive(Debug, Clone, Serialize, Deserialize)]\n" ++ ("pub struct " ++ ty.name ++ " \x7b\n") ++
    String.join (ty.fields.map (generateField u)) ++ "\x7d\n"

def generateHandler (route : ApiRoute) : String :=
  let reqType := route.request_type.getD "()"
  let respType := route.response_type.getD "impl IntoResponse"
  "/// Handler: " ++ route.handler ++ "\n" ++
    ("pub async fn " ++ route.handler ++ "(_req: " ++ reqType ++ ") -> " ++ respType ++
      " \x7b\n") ++
    "    // TODO: implement business logic\n" ++ "    ok(\"ok\")\n" ++ "\x7d\n"

def axumMethod : RouteMethod → String
  | .get => "get"
  | .post => "post"
  | .put => "put"
  | .delete => "delete"
  | .patch => "patch"
  | .head => "head"

def generateRouteRegistration (route : ApiRoute) : String :=
  "        .route(\"" ++ route.path ++ "\", axum::routing::" ++ axumMethod route.method ++ "(" ++
    route.handler ++ "))\n"

def ApiFile.routes (api : ApiFile) : List ApiRoute := api.services.flatMap ApiService.routes

def generate (api : ApiFile) : GeneratedCode where
  types := "// Auto-generated from .api file\n\n" ++
    "use serde::\x7bSerialize, Deserialize\x7d;\n\n" ++
    String.join (api.types.map (fun ty => generateType u ty ++ "\n"))
  handlers := "// Auto-generated handler stubs\n\n" ++ "use axum::response::IntoResponse;\n" ++
    "use rszero::prelude::*;\n\n" ++
    String.join (api.routes.map (fun route => generateHandler route ++ "\n"))
  routes := "// Auto-generated route registration\n" ++
    "pub fn register_routes(server: RszeroServer) -> RszeroServer \x7b\n" ++ "    server\n" ++
    String.join (api.routes.map generateRouteRegistration) ++ "\x7d\n"

end Rszero.Api
