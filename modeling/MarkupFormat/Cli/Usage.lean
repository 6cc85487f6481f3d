/-!
# Usage

What the program tells about itself.
-/

namespace MarkupFormat.Cli

/-- Lines of text. -/
def textOfLines (lines : List String) : String :=
  String.join (lines.map (· ++ "\n"))

/-- How the program is used. -/
def usage : String :=
  textOfLines [
    "Quill (whitespace-aware markup formatter)",
    "",
    "Usage: quill <command> [options]",
    "",
    "Commands:",
    "  fmt [paths...]       Format HTML and template files",
    "  parse <file.html>    Parse and display the annotated tree",
    "  doc <file.html>      Display the document IR before rendering",
    "  explain <code>       Explain an error code (e.g., E0001)",
    "  help                 Show this help message",
    "  version              Show version information",
    "",
    "Format options:",
    "  --check             Check if files are formatted (exit 1 if not)",
    "  --diff              Show diff output instead of modifying files",
    "  --stdin             Read from stdin, write to stdout",
    "  --print-width=<n>   Line width to fit (default: 80)",
    "",
    "Run `quill fmt --help` for every formatting option.",
    "",
    "Examples:",
    "  quill fmt                       # Format all files",
    "  quill fmt templates/            # Format a directory",
    "  quill fmt --check               # Check formatting (for CI)",
    "  quill parse index.html          # Inspect whitespace flags",
    "  quill explain E0001             # Explain unexpected closing tag"]

/-- How the format command is used. -/
def formatUsage : String :=
  textOfLines [
    "Format HTML, Jinja and JinjaX files",
    "",
    "Usage: quill fmt [options] [paths...]",
    "",
    "Arguments:",
    "  paths        Files or directories to format (default: .)",
    "",
    "Options:",
    "  --check      Check if files are formatted (exit 1 if not)",
    "  --diff       Show diff output instead of modifying files",
    "  --stdin      Read from stdin, write to stdout",
    "  --no-ignore  Ignore .quillfmtignore files and format everything",
    "  --help       Show this help message",
    "",
    "Layout:",
    "  --print-width=<n>                 Line width to fit (default: 80)",
    "  --tab-width=<n>                   Columns per indentation level (default: 2)",
    "  --use-tabs                        Indent with tabs",
    "  --end-of-line=<lf|crlf|cr|auto>   Newline style (default: lf)",
    "  --whitespace-sensitivity=<css|strict|ignore>",
    "                                    Which whitespace is significant (default: css)",
    "  --bracket-same-line               Keep `>` of multi-line tags on the last line",
    "  --single-attribute-per-line       One attribute per line when there are several",
    "  --require-pragma                  Only format files with <!-- @format -->",
    "  --insert-pragma                   Add <!-- @format --> to formatted files",
    "",
    "Ignore files:",
    "  Create a .quillfmtignore file to exclude paths from formatting.",
    "  Patterns support * (single directory) and ** (any directories).",
    "  Default ignores: hidden files (.*), target/, node_modules/",
    "",
    "Examples:",
    "  quill fmt                        # Format all files in current directory",
    "  quill fmt templates/             # Format all files in templates/",
    "  quill fmt index.html             # Format a single file",
    "  quill fmt --check                # Check formatting in CI",
    "  quill fmt --diff index.html      # Preview formatting changes",
    "  cat page.html | quill fmt --stdin   # Format stdin to stdout"]

/-- The version of the program. -/
def version : String :=
  textOfLines ["Quill 0.1.0-alpha.1", "Whitespace-aware markup formatter"]

end MarkupFormat.Cli
