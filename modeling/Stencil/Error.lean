import Stencil.FileSystem.SystemText
import Stencil.Position
import Stencil.Text.Html

/-!
# Errors

Everything that can go wrong when a template is read, compiled or rendered, each cause with the
facts that its message needs. The wording, the class, the code and the help of a cause are functions
of it.
-/

namespace Stencil

/-- A failure to reach or read a file. -/
inductive FileError where
  /-- The operating system refused, with its error number. -/
  | system (number : Int)
  /-- Any other failure, in words. -/
  | other (text : String)
deriving DecidableEq, Repr

namespace FileError

/-- There is nothing under a path. -/
def missing : FileError := .system 2

/-- A path leads through something that is not a directory. -/
def notDirectory : FileError := .system 20

/-- A path or one of its parts is too long. -/
def nameTooLong : FileError := .system 36

/-- There is something under a path, but not a file. -/
def notFile : FileError := .other "not a file"

/-- The message of a failure. -/
def message : FileError → String
  | .system n => s!"{systemText n} (os error {n})"
  | .other text => text

end FileError

/-- What went wrong. -/
inductive Error where
  /-- A file that was found could not be read. -/
  | file (cause : FileError)
  /-- A marker has no end. -/
  | unclosedMarker (marker : String) (place : Place)
  /-- The token at an index cannot stand there. -/
  | invalidTokenSequence (index : Nat)
  /-- The code in a marker is no expression. -/
  | invalidExpression (reason : String) (place : Place)
  /-- A tag marker holds no name. -/
  | emptyTag (place : Place)
  /-- A tag is not registered. -/
  | unknownTag (name : String) (place : Place)
  /-- An end tag closes nothing. -/
  | unexpectedEndTag (name : String) (place : Place)
  /-- An end tag does not match the block that is open. -/
  | mismatchedEndTag (expected found : String) (place : Place)
  /-- A block is never closed. -/
  | missingEndTag (name : String) (place : Place)
  /-- A tag does not accept its arguments. -/
  | invalidTagArguments (name reason : String) (place : Place)
  /-- A template includes itself, directly or through others. -/
  | circularInclude (identifier : String)
  /-- A filter is not registered. -/
  | unknownFilter (name : String) (place : Place)
  /-- An extension is not registered. -/
  | unknownExtension (name : String)
  /-- No root holds the template. -/
  | notFound (identifier : String) (attempts : Nat) (cause : FileError)
  /-- Files cannot be reached at all. -/
  | filesUnavailable
  /-- A filter rejects its input. -/
  | filter (name reason : String)
  /-- A handler fails while rendering. -/
  | render (reason : String)
  /-- The data for a template is not a mapping. -/
  | invalidContext (found : String)
  /-- The settings file cannot be understood. -/
  | invalidSettings (detail : String)
deriving DecidableEq, Repr

namespace Error

/-- The class of an error. -/
inductive Kind where
  | badSyntax
  | reference
  | notFound
  | filesUnavailable
  | render
  | file
  | settings
deriving DecidableEq, Repr

/-- The name of a class. -/
def Kind.name : Kind → String
  | .badSyntax => "Syntax"
  | .reference => "Reference"
  | .notFound => "NotFound"
  | .filesUnavailable => "EnvironmentUnsupported"
  | .render => "Render"
  | .file => "Io"
  | .settings => "Config"

/-- The class an error belongs to. -/
def kind : Error → Kind
  | .file _ => .file
  | .unclosedMarker .. | .invalidTokenSequence _ | .invalidExpression .. | .emptyTag _
  | .unknownTag .. | .unexpectedEndTag .. | .mismatchedEndTag .. | .missingEndTag ..
  | .invalidTagArguments .. | .circularInclude _ => .badSyntax
  | .unknownFilter .. | .unknownExtension _ => .reference
  | .notFound .. => .notFound
  | .filesUnavailable => .filesUnavailable
  | .filter .. | .render _ | .invalidContext _ => .render
  | .invalidSettings _ => .settings

/-- The code by which tools know an error. -/
def code : Error → String
  | .file _ => "quill::io_error"
  | .unclosedMarker .. => "quill::unclosed_marker"
  | .invalidTokenSequence _ => "quill::invalid_token_sequence"
  | .invalidExpression .. => "quill::invalid_expression"
  | .emptyTag _ => "quill::empty_tag"
  | .unknownTag .. => "quill::unknown_tag"
  | .unexpectedEndTag .. => "quill::unexpected_end_tag"
  | .mismatchedEndTag .. => "quill::mismatched_end_tag"
  | .missingEndTag .. => "quill::missing_end_tag"
  | .invalidTagArguments .. => "quill::invalid_tag_arguments"
  | .circularInclude _ => "quill::circular_include"
  | .unknownFilter .. => "quill::unknown_filter"
  | .unknownExtension _ => "quill::unknown_extension"
  | .notFound .. => "quill::not_found"
  | .filesUnavailable => "quill::environment_unsupported"
  | .filter .. => "quill::filter"
  | .render _ => "quill::render"
  | .invalidContext _ => "quill::invalid_context"
  | .invalidSettings _ => "quill::config_parse"

/-- The message of an error. -/
def message : Error → String
  | .file cause => cause.message
  | .unclosedMarker marker place => s!"unclosed `{marker}` opened at {place.text}"
  | .invalidTokenSequence _ => "invalid token sequence"
  | .invalidExpression reason place => s!"invalid expression at {place.text}: {reason}"
  | .emptyTag place => s!"empty tag at {place.text}"
  | .unknownTag name place => s!"unknown tag `{name}` at {place.text}"
  | .unexpectedEndTag name place => s!"unexpected end tag `{name}` at {place.text}"
  | .mismatchedEndTag expected found place =>
    s!"expected `end{expected}` but found `{found}` at {place.text}"
  | .missingEndTag name place => s!"missing end tag for block `{name}` opened at {place.text}"
  | .invalidTagArguments name reason place =>
    s!"invalid arguments for tag `{name}` at {place.text}: {reason}"
  | .circularInclude identifier => s!"circular include of `{identifier}`"
  | .unknownFilter name place => s!"unknown filter `{name}` at {place.text}"
  | .unknownExtension name => s!"unknown extension `{name}`"
  | .notFound identifier attempts cause =>
    s!"template `{identifier}` not found after {attempts} attempt(s): {cause.message}"
  | .filesUnavailable => "file-based compilation is not available in this execution context"
  | .filter name reason => s!"filter `{name}` failed: {reason}"
  | .render reason => s!"render failed: {reason}"
  | .invalidContext found => s!"context must be a mapping, got {found}"
  | .invalidSettings detail => s!"failed to parse config file: {detail}"

/-- Advice on an error, for some. -/
def help? : Error → Option String
  | .unclosedMarker .. =>
    some "every `\x7b\x7b`, `\x7b%` and `\x7b#` needs a matching `\x7d\x7d`, `%\x7d` or `#\x7d`"
  | .unknownTag .. =>
    some "register the tag with `Options::tag` or `Options::simple_tag` before compiling"
  | .missingEndTag name _ => some ("add `\x7b% end" ++ name ++ " %\x7d` to close this block")
  | .circularInclude _ =>
    some "a template cannot include itself, directly or through other includes"
  | .unknownFilter .. => some "register the filter with `Options::filter` before compiling"
  | .unknownExtension _ =>
    some "register the extension with `Options::extension` before compiling"
  | .notFound .. => some "check the configured root(s) or pass an absolute path"
  | .filesUnavailable => some "compile template source with `compile` instead of `compile_file`"
  | .invalidSettings _ =>
    some ("check that quill.toml is valid TOML with `root`, `allow_errors`, `autoescape` " ++
      "or `cache` keys")
  | _ => none

/-- The markup that stands for a template that failed. -/
def block (e : Error) : String := "<pre>Error: " ++ Text.escapeHtml e.message ++ "</pre>"

end Error

end Stencil
