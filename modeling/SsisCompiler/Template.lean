/-!
# Templates

The fixed text around the methods of a program. A template is text with slots, each filled with the
value of a name. A value stands as it is: slots inside it are not looked for.
-/

namespace SsisCompiler

/-- The templates of a program. -/
inductive Template
  /-- What stands before the members of the program. -/
  | header
  /-- What stands behind them. -/
  | footer
  /-- The imports of the management objects. -/
  | smoUsing
  /-- Helpers for parameters that are tables. -/
  | tableParameters
  deriving DecidableEq, Repr

/-- A part of a template. -/
inductive TemplatePart
  | text (s : String)
  | slot (name : String)
  deriving DecidableEq, Repr

/-- A template that could not be filled. -/
structure TemplateError where
  template : Template
  reason : String
  deriving DecidableEq, Repr

namespace Template

/-- All templates. -/
def all : List Template := [.header, .footer, .smoUsing, .tableParameters]

/-- The file that a template stands for. -/
def fileName : Template → String
  | .header => "program_header.cs"
  | .footer => "program_footer.cs"
  | .smoUsing => "sql_smo_using.cs"
  | .tableParameters => "table_param_static.cs"

/-- The template of a file. -/
def ofFileName? (name : String) : Option Template :=
  all.find? (·.fileName == name)

/-- Lines of text. -/
def textLines (lines : List String) : TemplatePart :=
  .text (String.join (lines.map (· ++ "\n")))

/-- The parts of a template. -/
def parts : Template → List TemplatePart
  | .header => [
    .text "// Generated from SSIS package ", .slot "package_name",
    textLines [
      "",
      "using System;",
      "using System.Collections.Generic;",
      "using System.Data;",
      "using System.Data.SqlClient;",
      "using System.IO;",
      "using System.Net.Mail;"],
    .slot "sql_smo_using",
    .text "\nnamespace ", .slot "namespace",
    textLines [
      "",
      "\x7b",
      "    public class Program",
      "    \x7b",
      "        /// <summary>",
      "        /// Runs the package starting at its first executable.",
      "        /// </summary>",
      "        public static void Main(string[] args)",
      "        \x7b"],
    .text "            ", .slot "main_function",
    textLines ["();", "        \x7d"],
    .slot "table_param_static", .text "\n"]
  | .footer => [textLines ["    \x7d", "\x7d"]]
  | .smoUsing => [
    textLines [
      "using Microsoft.SqlServer.Management.Common;",
      "using Microsoft.SqlServer.Management.Smo;"]]
  | .tableParameters => [
    textLines [
      "",
      "        #region Table Parameter Helpers",
      "        /// <summary>",
      "        /// Wrap a list of values in a one-column DataTable for use as a table-valued parameter.",
      "        /// </summary>",
      "        public static DataTable ToTableParameter<T>(IEnumerable<T> values, string column)",
      "        \x7b",
      "            DataTable table = new DataTable();",
      "            table.Columns.Add(column, typeof(T));",
      "            foreach (T value in values)",
      "            \x7b",
      "                table.Rows.Add(value);",
      "            \x7d",
      "            return table;",
      "        \x7d",
      "",
      "        /// <summary>",
      "        /// Add a table-valued parameter to a command.",
      "        /// </summary>",
      "        public static SqlParameter AddTableParameter(SqlCommand cmd, string name, string typeName, DataTable table)",
      "        \x7b",
      "            SqlParameter parameter = cmd.Parameters.AddWithValue(name, table);",
      "            parameter.SqlDbType = SqlDbType.Structured;",
      "            parameter.TypeName = typeName;",
      "            return parameter;",
      "        \x7d",
      "        #endregion"]]

/-- The text of some parts, given the values of the slots; a slot without a value is an error. -/
def fillParts (values : List (String × String)) : List TemplatePart → Except String String
  | [] => .ok ""
  | .text s :: rest => (fillParts values rest).map (s ++ ·)
  | .slot name :: rest =>
    match values.lookup name with
    | some value => (fillParts values rest).map (value ++ ·)
    | none => .error name

/-- A template with its slots filled. -/
def fill (t : Template) (values : List (String × String)) : Except TemplateError String :=
  match fillParts values t.parts with
  | .ok text => .ok text
  | .error name => .error ⟨t, "no value for " ++ name⟩

end Template

/-- A template error in words. -/
def TemplateError.message (e : TemplateError) : String :=
  "template " ++ e.template.fileName ++ ": " ++ e.reason

end SsisCompiler
