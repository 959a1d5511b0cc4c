import RasterFallback.Config.Basic
import RasterFallback.Json.Struct
import RasterFallback.Json.Value

/-!
Configuration texts: an object or an array of the settings, in JSON.
-/
namespace RasterFallback
open RasterFallback.Json

/-- A member whose value is set as read. -/
def Config.member {α β : Type} (name : String) (read : Reader α) (set : α → β → β) : Member β :=
  ⟨name, fun s => do
    let (a, rest) ← read s
    .ok (set a, rest)⟩

def Config.path : Reader String := string "path string"

def RendererConfig.fields : List (Member RendererConfig) :=
  [Config.member "program" Config.path fun p c => { c with program := p },
    Config.member "args" (list (string "a string")) fun as c => { c with args := as }]

def Config.fields : List (Member Config) :=
  [member "fallbackSelector" (string "a string") fun t c => { c with fallbackSelector := t },
    member "basePath" path fun p c => { c with basePath := p },
    member "dest" path fun p c => { c with dest := p },
    member "disableConvert" boolean fun b c => { c with disableConvert := b },
    member "renderer" (record "struct RendererConfig" RendererConfig.fields {})
      fun r c => { c with renderer := r }]

/-- Reads settings and passes them only if they are usable. -/
def Config.parse (text : String) : Except ConfigFault Config :=
  match readAll (record "struct FallbackConfig" fields {}) text.toList with
  | .error e => .error (.unreadable text.toList e)
  | .ok c => do
    c.validate
    .ok c

/-- The settings of a renderer as a value. -/
def RendererConfig.value (r : RendererConfig) : Value :=
  .object [("program", .string r.program), ("args", .array (r.args.map .string))]

def Config.value (c : Config) : Value :=
  .object [("fallbackSelector", .string c.fallbackSelector), ("basePath", .string c.basePath),
    ("dest", .string c.dest), ("disableConvert", .bool c.disableConvert),
    ("renderer", c.renderer.value)]

def Config.text (c : Config) : String := String.ofList c.value.text

end RasterFallback
