import Stencil.Component
import Stencil.Registry
import Stencil.Schema

set_option autoImplicit false

/-!
# Configurations

The settings of a project: the dialect to write, whether comments are shown, the extension that
components have, and the variables that are known. A setting that is not given has a default, and
what the command line says is laid over what the configuration file says.
-/

namespace Stencil

structure Config where
  dialect : String
  showComments : Bool
  extension : String
  bindings : Mapping

namespace Config

def defaultDialect : String := "ispconfig"

def standard : Config := ⟨defaultDialect, false, Component.defaultExtension, []⟩

def schema : Schema where
  name := "TransformerConfig"
  fields :=
    [⟨"strategy", .oneOf (Registry.builtin.entries.map fun e => .str e.1),
        some (.str standard.dialect)⟩,
      ⟨"show_comments", .bool, some (.bool standard.showComments)⟩,
      ⟨"component_extension", .text, some (.str standard.extension)⟩,
      ⟨"variables", .mapping .text .any, some (.map standard.bindings)⟩]

def ofFields (fields : Mapping) : Config where
  dialect := match Mapping.lookup? "strategy" fields with
    | some (.str s) => s
    | _ => standard.dialect
  showComments := match Mapping.lookup? "show_comments" fields with
    | some (.bool b) => b
    | _ => standard.showComments
  extension := match Mapping.lookup? "component_extension" fields with
    | some (.str s) => s
    | _ => standard.extension
  bindings := match Mapping.lookup? "variables" fields with
    | some (.map m) => m
    | _ => standard.bindings

def ofValue (v : Value) : Except Failure Config :=
  (schema.read v).map ofFields

structure Overrides where
  dialect : Option String
  showComments : Option Bool
  bindings : Mapping

/-- Lays overrides over a configuration. Variables are merged, those of the overrides winning. -/
def override (o : Overrides) (c : Config) : Config where
  dialect := o.dialect.getD c.dialect
  showComments := o.showComments.getD c.showComments
  extension := c.extension
  bindings := Mapping.overlay o.bindings c.bindings

end Config

end Stencil
